import ScriptBindings.Proofs.HostType.Structure
import ScriptBindings.Proofs.TypeExpr.Spread

/-! Grouped unions. A union in parentheses is one member of the union around
it, and nothing takes the parentheses away. The host type is that of the
union without groups as long as the groups do not change which member is the
only one with a value: a group of `null` and `undefined` counts as a member
with a value, and an override may be given for a group alone. A group of
several types in a union that has nothing else is made nullable. -/
namespace ScriptBindings

namespace TypeExpr

mutual

/-- The members that a member stands for without its parentheses. -/
def ungrouped : TypeExpr → List TypeExpr
  | .unionOf members => ungroup members
  | t => [t]

/-- The members of a union, in order, with those of a group in place of the
group. -/
def ungroup : List TypeExpr → List TypeExpr
  | [] => []
  | t :: rest => t.ungrouped ++ ungroup rest

end

mutual

def groupsOf : TypeExpr → List (List TypeExpr)
  | .unionOf members => members :: groups members
  | _ => []

/-- The groups among the members of a union, each with its members, and
those within groups. -/
def groups : List TypeExpr → List (List TypeExpr)
  | [] => []
  | t :: rest => t.groupsOf ++ groups rest

end

/-- The group is all that carries a value in the union, or in a group that
is. -/
inductive SoleGroup : List TypeExpr → List TypeExpr → Prop where
  | member {members inner : List TypeExpr} (hSole : valued members = [.unionOf inner]) :
      SoleGroup members inner
  | within {members group inner : List TypeExpr} (hSole : valued members = [.unionOf group])
      (h : SoleGroup group inner) : SoleGroup members inner

/-- All that carries a value in the union is one group, which does not come
to a single type. -/
structure Enclosed (members : List TypeExpr) : Prop where
  sole : ∃ inner, valued members = [.unionOf inner]
  several : ∀ t, valued (ungroup members) ≠ [t]

variable {members group inner : List TypeExpr} {t : TypeExpr}

/-! ### Members of groups -/

theorem ungroup_eq (members : List TypeExpr) : ungroup members = members.flatMap ungrouped := by
  induction members with
  | nil => rfl
  | cons t rest ih => rw [ungroup, ih, List.flatMap_cons]

theorem groups_eq (members : List TypeExpr) : groups members = members.flatMap groupsOf := by
  induction members with
  | nil => rfl
  | cons t rest ih => rw [groups, ih, List.flatMap_cons]

theorem ungrouped_of_not_union (h : ∀ inner, t ≠ .unionOf inner) : t.ungrouped = [t] := by
  cases t <;> first | rfl | exact absurd rfl (h _)

/-- The groups within a member are among those of the union. -/
theorem mem_groups (ht : t ∈ members) (h : inner ∈ t.groupsOf) : inner ∈ groups members := by
  rw [groups_eq]
  exact List.mem_flatMap.mpr ⟨t, ht, h⟩

theorem mem_groups_of_mem (h : TypeExpr.unionOf inner ∈ members) : inner ∈ groups members :=
  mem_groups h List.mem_cons_self

/-- Groups may be nested, and those within a group count as well. -/
theorem mem_groups_within (hGroup : TypeExpr.unionOf group ∈ members) (h : inner ∈ groups group) :
    inner ∈ groups members :=
  mem_groups hGroup (List.mem_cons_of_mem _ h)

theorem SoleGroup.mem_groups (h : SoleGroup members inner) : inner ∈ groups members := by
  induction h with
  | member hSole => exact mem_groups_of_mem (mem_of_valued hSole)
  | within hSole _ ih => exact mem_groups_within (mem_of_valued hSole) ih

/-- Groups do not hide what carries a value: `null` and `undefined` stand
for themselves. -/
theorem valued_ungroup (members : List TypeExpr) :
    valued (ungroup members) = (valued members).flatMap fun t => valued t.ungrouped := by
  induction members with
  | nil => rfl
  | cons t rest ih =>
      have hRest : valued (ungroup (t :: rest)) = valued t.ungrouped ++ valued (ungroup rest) :=
        List.filter_append ..
      rw [hRest, ih, valued, valued, valued, List.filter_cons]
      cases hNullish : t.isNullish with
      | false => rfl
      | true =>
          cases t with
          | primitive p => simp [ungrouped, hNullish]
          | _ => cases hNullish

theorem valued_ungrouped_of_not_union (h : ∀ inner, t ≠ .unionOf inner) (ht : t ∈ valued members) :
    valued t.ungrouped = [t] := by
  rw [ungrouped_of_not_union h, valued, List.filter_singleton, (List.mem_filter.mp ht).2,
    cond_true]

/-- If a group carries all values, so do its members in its place. -/
theorem valued_ungroup_of_sole (hSole : valued members = [TypeExpr.unionOf inner]) :
    valued (ungroup members) = valued (ungroup inner) := by
  rw [valued_ungroup, hSole, List.flatMap_singleton, ungrouped]

/-- If a single type does, nothing changes with the groups taken apart. -/
theorem valued_ungroup_of_single (hSole : valued members = [t])
    (hGroup : ∀ inner, valued members ≠ [TypeExpr.unionOf inner]) :
    valued (ungroup members) = [t] := by
  have hUnion (inner : List TypeExpr) : t ≠ .unionOf inner := by
    rintro rfl
    exact hGroup inner hSole
  rw [valued_ungroup, hSole, List.flatMap_singleton,
    valued_ungrouped_of_not_union hUnion (hSole ▸ List.mem_cons_self)]

/-- From a union to the group that is all of it, as long as there is one. -/
theorem sole_induction {motive : List TypeExpr → Prop}
    (step : ∀ members : List TypeExpr,
      (∀ inner, valued members = [TypeExpr.unionOf inner] → motive inner) → motive members)
    (members : List TypeExpr) : motive members := by
  suffices h : ∀ (t : TypeExpr) (inner : List TypeExpr), t = .unionOf inner → motive inner from
    h (.unionOf members) members rfl
  intro t
  induction t using TypeExpr.induction with
  | unionOf members ih =>
      rintro _ ⟨⟩
      exact step members fun inner hSole => ih _ (mem_of_valued hSole) inner rfl
  | _ => rintro _ ⟨⟩

/-! ### Canonical texts -/

/-- The texts of the members are joined the same way with or without groups,
provided that each group has a text of its own. -/
theorem intercalate_ungroup (h : ∀ t ∈ members, t.ungrouped ≠ [] ∧
      " | ".toList.intercalate (t.ungrouped.map fun t => t.canonical.toList) =
        t.canonical.toList) :
    " | ".toList.intercalate ((ungroup members).map fun t => t.canonical.toList) =
      " | ".toList.intercalate (members.map fun t => t.canonical.toList) := by
  rw [ungroup_eq, List.map_flatMap, Bracket.intercalate_flatMap fun t ht => by
    simpa using (h t ht).1]
  exact congrArg _ (List.map_congr_left fun t ht => (h t ht).2)

/-- Without empty groups every member stands for some, which are written
alike. -/
theorem canonical_ungrouped (h : ∀ inner ∈ t.groupsOf, inner ≠ []) :
    t.ungrouped ≠ [] ∧ " | ".toList.intercalate (t.ungrouped.map fun t => t.canonical.toList) =
      t.canonical.toList := by
  induction t using TypeExpr.induction with
  | unionOf members ih =>
      have hMember (t : TypeExpr) (ht : t ∈ members) := ih t ht fun inner hInner =>
        h inner (List.mem_cons_of_mem _ (mem_groups ht hInner))
      refine ⟨?_, (intercalate_ungroup hMember).trans (canonical_unionOf members).symm⟩
      obtain ⟨t, ht⟩ := List.exists_mem_of_ne_nil members (h members List.mem_cons_self)
      obtain ⟨u, hu⟩ := List.exists_mem_of_ne_nil _ (hMember t ht).1
      rw [ungrouped, ungroup_eq]
      exact List.ne_nil_of_mem (List.mem_flatMap.mpr ⟨t, ht, hu⟩)
  | _ => exact ⟨List.cons_ne_nil _ _, List.intercalate_singleton⟩

/-- Taking groups apart does not change the text of a union. Only an empty
group would leave a trace. -/
theorem canonical_ungroup (h : ∀ inner ∈ groups members, inner ≠ []) :
    (unionOf (ungroup members)).canonical = (unionOf members).canonical := by
  rw [← String.toList_inj, canonical_unionOf, canonical_unionOf]
  exact intercalate_ungroup fun t ht =>
    canonical_ungrouped fun inner hInner => h inner (mem_groups ht hInner)

end TypeExpr

/-! ### Nullable host types -/

theorem endsWith_nullable (host : String) : endsWith "?" (nullable host) = true := by
  unfold nullable
  split
  · assumption
  · rw [endsWith, String.toList_append, List.isSuffixOf_iff_suffix]
    exact List.suffix_append _ _

theorem nullable_of_endsWith {host : String} (h : endsWith "?" host = true) :
    nullable host = host :=
  if_pos h

namespace TypeMap

open TypeExpr

variable {m : TypeMap} {members group inner : List TypeExpr} {t : TypeExpr}

/-- A host type is made nullable only once. -/
theorem unionHost_unionHost (m : TypeMap) (host : String) :
    m.unionHost [m.unionHost [host]] = m.unionHost [host] := by
  by_cases hVoid : host == voidType
  · simp only [unionHost, if_pos hVoid]
  · simp only [unionHost, if_neg hVoid, nullable_of_endsWith (endsWith_nullable host), ite_self]

/-! ### Host types of grouped unions -/

/-- No override is given for a group that the host type is taken from, and
where only one type carries a value without the groups, no group is without
one. -/
structure SeesThrough (m : TypeMap) (members : List TypeExpr) : Prop where
  bare : ∀ inner, SoleGroup members inner → m.override? (.unionOf inner) = none
  valued : ∀ t, TypeExpr.valued (ungroup members) = [t] → ∀ inner ∈ groups members,
    TypeExpr.valued (ungroup inner) ≠ []

namespace SeesThrough

/-- Groups that no override is given for and that all come to some type are
seen through. -/
theorem of_groups (hBare : ∀ inner ∈ groups members, m.override? (.unionOf inner) = none)
    (hValued : ∀ inner ∈ groups members, TypeExpr.valued (ungroup inner) ≠ []) :
    m.SeesThrough members :=
  ⟨fun inner hSole => hBare inner hSole.mem_groups, fun _ _ => hValued⟩

variable (h : m.SeesThrough members)

include h

/-- What holds of a union holds of the group that carries its values. -/
theorem within (hSole : TypeExpr.valued members = [TypeExpr.unionOf inner]) :
    m.SeesThrough inner where
  bare := fun _ hInner => h.bare _ (.within hSole hInner)
  valued := fun t ht _ hInner => h.valued t ((valued_ungroup_of_sole hSole).trans ht) _
    (mem_groups_within (mem_of_valued hSole) hInner)

/-- Every group comes to some type, so that one type cannot come from
several members. -/
theorem valued_eq (hSole : TypeExpr.valued (ungroup members) = [t])
    (hGroup : ∀ inner, TypeExpr.valued members ≠ [.unionOf inner]) :
    TypeExpr.valued members = [t] := by
  have hSome (u : TypeExpr) (hu : u ∈ TypeExpr.valued members) :
      ∃ v later, TypeExpr.valued u.ungrouped = v :: later := by
    refine List.exists_cons_of_ne_nil ?_
    by_cases hUnion : ∃ inner, u = .unionOf inner
    · obtain ⟨inner, rfl⟩ := hUnion
      exact h.valued t hSole inner (mem_groups_of_mem (List.mem_filter.mp hu).1)
    · rw [valued_ungrouped_of_not_union (not_exists.mp hUnion) hu]
      exact List.cons_ne_nil _ _
  match hMembers : TypeExpr.valued members with
  | [] =>
      rw [valued_ungroup, hMembers] at hSole
      cases hSole
  | [u] => rw [← valued_ungroup_of_single hMembers hGroup, hSole]
  | u :: v :: rest =>
      obtain ⟨a, _, hFirst⟩ := hSome u (by simp [hMembers])
      obtain ⟨b, _, hSecond⟩ := hSome v (by simp [hMembers])
      simp [valued_ungroup, hMembers, hFirst, hSecond] at hSole

/-- One type carries a value: it is found through all groups. -/
theorem of_sole (hBare : m.override? (.unionOf members) = none)
    (hSole : TypeExpr.valued (ungroup members) = [t]) :
    m.host (.unionOf members) = m.unionHost [m.host t] ∧
      m.introduced (.unionOf members) = m.introduced t := by
  induction members using sole_induction with
  | step members ih =>
      by_cases hGroup : ∃ inner, TypeExpr.valued members = [.unionOf inner]
      · obtain ⟨inner, hGroup⟩ := hGroup
        obtain ⟨hHost, hIntroduced⟩ := ih inner hGroup (h.within hGroup)
          (h.bare inner (.member hGroup)) ((valued_ungroup_of_sole hGroup).symm.trans hSole)
        rw [host_unionOf_of_sole hBare hGroup, introduced_unionOf_of_sole hBare hGroup, hHost,
          unionHost_unionHost]
        exact ⟨rfl, hIntroduced⟩
      · have hMembers := h.valued_eq hSole (not_exists.mp hGroup)
        exact ⟨host_unionOf_of_sole hBare hMembers, introduced_unionOf_of_sole hBare hMembers⟩

/-- No single type carries a value: a group around it makes the fallback
nullable. -/
theorem of_several (hBare : m.override? (.unionOf members) = none)
    (hSeveral : ∀ t, TypeExpr.valued (ungroup members) ≠ [t]) :
    (Enclosed members → m.host (.unionOf members) = m.unionHost [m.fallback]) ∧
      (¬Enclosed members → m.host (.unionOf members) = m.fallback) ∧
        m.introduced (.unionOf members) = [] := by
  induction members using sole_induction with
  | step members ih =>
      by_cases hGroup : ∃ inner, TypeExpr.valued members = [.unionOf inner]
      · have hEnclosed : Enclosed members := ⟨hGroup, hSeveral⟩
        obtain ⟨inner, hGroup⟩ := hGroup
        rw [valued_ungroup_of_sole hGroup] at hSeveral
        obtain ⟨hNullable, hPlain, hIntroduced⟩ :=
          ih inner hGroup (h.within hGroup) (h.bare inner (.member hGroup)) hSeveral
        refine ⟨fun _ => ?_, absurd hEnclosed, ?_⟩
        · rw [host_unionOf_of_sole hBare hGroup]
          by_cases hInner : Enclosed inner
          · rw [hNullable hInner, unionHost_unionHost]
          · rw [hPlain hInner]
        · rw [introduced_unionOf_of_sole hBare hGroup, hIntroduced]
      · have hMembers (t : TypeExpr) (hSole : TypeExpr.valued members = [t]) : False :=
          hSeveral t (valued_ungroup_of_single hSole (not_exists.mp hGroup))
        exact ⟨fun hEnclosed => absurd hEnclosed.sole hGroup,
          fun _ => host_unionOf_of_several hBare hMembers,
          introduced_unionOf_of_several hBare hMembers⟩

end SeesThrough

/-- Groups change neither the host type of a union nor the type parameters
it introduces, but that a union which is a group of several types is
nullable. -/
theorem host_ungroup (hFull : ∀ inner ∈ groups members, inner ≠ [])
    (h : m.override? (.unionOf members) = none → m.SeesThrough members) :
    m.introduced (.unionOf (ungroup members)) = m.introduced (.unionOf members) ∧
      (¬(m.override? (.unionOf members) = none ∧ Enclosed members) →
        m.host (.unionOf (ungroup members)) = m.host (.unionOf members)) ∧
      (m.override? (.unionOf members) = none ∧ Enclosed members →
        m.host (.unionOf (ungroup members)) = m.fallback ∧
          m.host (.unionOf members) = m.unionHost [m.fallback]) := by
  have hSame : m.override? (.unionOf (ungroup members)) = m.override? (.unionOf members) :=
    congrArg m.overrides.find? (canonical_ungroup hFull)
  cases hOverride : m.override? (.unionOf members) with
  | some entry =>
      rw [hOverride] at hSame
      rw [introduced_of_override? hSame (by simp), introduced_of_override? hOverride (by simp),
        host_of_override? hSame (by simp), host_of_override? hOverride (by simp)]
      simp
  | none =>
      rw [hOverride] at hSame
      by_cases hSole : ∃ t, TypeExpr.valued (ungroup members) = [t]
      · obtain ⟨t, hSole⟩ := hSole
        obtain ⟨hHost, hIntroduced⟩ := (h hOverride).of_sole hOverride hSole
        have hOpen : ¬Enclosed members := fun hEnclosed => hEnclosed.several t hSole
        rw [host_unionOf_of_sole hSame hSole, introduced_unionOf_of_sole hSame hSole, hHost,
          hIntroduced]
        exact ⟨rfl, fun _ => rfl, fun hEnclosed => absurd hEnclosed.2 hOpen⟩
      · have hSeveral := not_exists.mp hSole
        obtain ⟨hNullable, hPlain, hIntroduced⟩ := (h hOverride).of_several hOverride hSeveral
        rw [host_unionOf_of_several hSame hSeveral, introduced_unionOf_of_several hSame hSeveral,
          hIntroduced]
        refine ⟨rfl, fun hOpen => (hPlain fun hEnclosed => hOpen ⟨rfl, hEnclosed⟩).symm, ?_⟩
        exact fun hEnclosed => ⟨rfl, hNullable hEnclosed.2⟩

/-- The elements in `null | (undefined | (null | Item[]))` are overridden,
and so is the whole of `(null | Key) | string`; `(string | number) | null`
is a group of several types. -/
theorem host_ungroup_of_overrides :
    let m : TypeMap := ⟨.ofList [("Item", .generic "TItem" [⟨"TItem", none⟩]),
      ("null | Key | string", .plain "Key")], "object"⟩
    let items : List TypeExpr := [.primitive .null, .unionOf [.primitive .undefined,
      .unionOf [.primitive .null, .arrayOf (.reference "Item")]]]
    let keys : List TypeExpr :=
      [.unionOf [.primitive .null, .reference "Key"], .primitive .string]
    let values : List TypeExpr :=
      [.unionOf [.primitive .string, .primitive .number], .primitive .null]
    (m.host (.unionOf items) = "TItem[]?" ∧ m.host (.unionOf (ungroup items)) = "TItem[]?" ∧
      m.introduced (.unionOf (ungroup items)) = [⟨"TItem", none⟩]) ∧
    (m.host (.unionOf keys) = "Key" ∧ m.host (.unionOf (ungroup keys)) = "Key") ∧
    (m.host (.unionOf values) = "object?" ∧ m.host (.unionOf (ungroup values)) = "object") := by
  intro m items keys values
  have hItems : m.SeesThrough items := .of_groups (by decide +kernel) (by decide +kernel)
  have hValues : m.SeesThrough values := .of_groups (by decide +kernel) (by decide +kernel)
  have hSole : valued (ungroup items) = [.arrayOf (.reference "Item")] := by decide +kernel
  have hEnclosed : Enclosed values := by
    refine ⟨⟨_, rfl⟩, fun t hOne => ?_⟩
    have hTwo : (valued (ungroup values)).length = 2 := by decide +kernel
    rw [hOne] at hTwo
    cases hTwo
  have hKey : m.override? (.unionOf keys) ≠ none := by decide +kernel
  obtain ⟨hIntroduced, hHost, -⟩ := host_ungroup (by decide +kernel) fun _ => hItems
  obtain ⟨-, hSame, -⟩ := host_ungroup (by decide +kernel) fun hNone => absurd hNone hKey
  obtain ⟨-, -, hNullable⟩ := host_ungroup (by decide +kernel) fun _ => hValues
  obtain ⟨hFallback, hMarked⟩ := hNullable ⟨by decide +kernel, hEnclosed⟩
  have hItem : m.host (.unionOf items) = "TItem[]?" := by decide +kernel
  have hKeyHost : m.host (.unionOf keys) = "Key" := by decide +kernel
  refine ⟨⟨hItem, (hHost fun h => h.2.several _ hSole).trans hItem,
    hIntroduced.trans (by decide +kernel)⟩, ⟨hKeyHost, (hSame fun h => hKey h.1).trans hKeyHost⟩,
    hMarked.trans (by decide +kernel), hFallback⟩

/-- An override may be given for a group alone. -/
example :
    let m : TypeMap := ⟨.ofList [("string | null", .plain "Text")], "object"⟩
    let members : List TypeExpr :=
      [.unionOf [.primitive .string, .primitive .null], .primitive .undefined]
    m.host (.unionOf members) = "Text?" ∧ m.host (.unionOf (ungroup members)) = "string?" := by
  decide +kernel

/-- A group of `null` and `undefined` counts as a member with a value, so
that the member beside it is not the only one. -/
theorem not_forall_host_ungroup :
    ¬∀ (m : TypeMap) (members : List TypeExpr),
      m.host (.unionOf (ungroup members)) = m.host (.unionOf members) ∧
        m.introduced (.unionOf (ungroup members)) = m.introduced (.unionOf members) := by
  intro h
  have hHost := (h ⟨.empty, "object"⟩
    [.unionOf [.primitive .null, .primitive .undefined], .primitive .string]).1
  exact absurd hHost (by decide +kernel)

end TypeMap

end ScriptBindings
