import ScriptBindings.HostType

/-! Host types where no override applies. The host type of a type then
follows from its structure, and so do the type parameters that it
introduces. Without any overrides no type parameters are introduced at
all. -/
namespace ScriptBindings

namespace TypeExpr

/-- The members of a union that carry a value. -/
def valued (members : List TypeExpr) : List TypeExpr :=
  members.filter (!·.isNullish)

theorem mem_of_valued {members : List TypeExpr} {t : TypeExpr} (hSole : valued members = [t]) :
    t ∈ members :=
  (List.mem_filter.mp (hSole ▸ List.mem_singleton_self t)).1

/-- A union with several members that carry a value has as many host types
to choose from, and so none is chosen. -/
theorem map_valued_ne_singleton {α : Type} {f : TypeExpr → α} {a : α} {members : List TypeExpr}
    (hSeveral : ∀ t, valued members ≠ [t]) : (valued members).map f ≠ [a] := by
  intro hOne
  obtain ⟨t, hSole, -⟩ := List.map_eq_singleton_iff.mp hOne
  exact hSeveral t hSole

/-- The types that have no host type of their own. -/
inductive FallsBack : TypeExpr → Prop where
  | symbol : FallsBack (.primitive .symbol)
  | reference (text : String) : FallsBack (.reference text)
  | keyOf {target : TypeExpr} (hTarget : ∀ name, target ≠ .genericRef name) :
      FallsBack (.keyOf target)
  | unionOf {members : List TypeExpr} (hSeveral : ∀ t, valued members ≠ [t]) :
      FallsBack (.unionOf members)

end TypeExpr

namespace TypeMap

variable {m : TypeMap}

/-- The members of a union are mapped one by one, those without a value left
out. -/
theorem memberHosts_eq (m : TypeMap) (members : List TypeExpr) :
    m.memberHosts members = (TypeExpr.valued members).map m.host := by
  induction members with
  | nil => rfl
  | cons t rest ih =>
      rw [memberHosts, TypeExpr.valued, List.filter_cons, ih]
      cases t.isNullish <;> rfl

theorem introducedByMembers_eq (m : TypeMap) (members : List TypeExpr) :
    m.introducedByMembers members = (TypeExpr.valued members).map m.introduced := by
  induction members with
  | nil => rfl
  | cons t rest ih =>
      rw [introducedByMembers, TypeExpr.valued, List.filter_cons, ih]
      cases t.isNullish <;> rfl

/-! ### Types that an override applies to -/

section Overridden

variable {t : TypeExpr} {entry : TypeOverride} (h : m.override? t = some entry)
  (hGeneric : ∀ name, t ≠ .genericRef name)

include h hGeneric

/-- An override is taken for the type as a whole, and its structure does not
matter then. -/
theorem host_of_override? : m.host t = entry.host := by
  cases t with
  | genericRef name => exact absurd rfl (hGeneric name)
  | _ => rw [host, orOverride, h]

/-- The generics of an override are introduced with its host type, also
where the structure of the type would introduce others. -/
theorem introduced_of_override? : m.introduced t = entry.generics := by
  cases t with
  | genericRef name => exact absurd rfl (hGeneric name)
  | _ => rw [introduced, orGenerics, h]

end Overridden

/-- A constraint is the host type of the type that comes to it. -/
theorem host_of_constraint? {t : TypeExpr} {text : String} (h : m.constraint? t = some text) :
    m.host t = text := by
  unfold constraint? at h
  split at h
  · exact Option.some_inj.mp h
  · exact Option.some_inj.mp (Option.ite_none_right_eq_some.mp h).2
  · next hGeneric _ =>
      obtain ⟨entry, hEntry, hText⟩ := Option.bind_eq_some_iff.mp h
      rw [host_of_override? hEntry hGeneric]
      exact Option.some_inj.mp (Option.ite_none_right_eq_some.mp hText).2

/-! ### Types that no override applies to -/

section Bare

variable {members : List TypeExpr} {t element result target : TypeExpr} {p : Primitive}
  {text : String}

theorem orOverride_of_none (h : m.override? t = none) (structural : String) :
    m.orOverride t structural = structural := by
  rw [orOverride, h]

theorem orGenerics_of_none (h : m.override? t = none) (structural : List OverrideGeneric) :
    m.orGenerics t structural = structural := by
  rw [orGenerics, h]

theorem host_primitive (h : m.override? (.primitive p) = none) :
    m.host (.primitive p) = m.primitiveHost p := by
  rw [host, orOverride_of_none h]

theorem host_arrayOf (h : m.override? (.arrayOf element) = none) :
    m.host (.arrayOf element) = m.host element ++ "[]" := by
  rw [host, orOverride_of_none h]

theorem host_promiseOf (h : m.override? (.promiseOf result) = none) :
    m.host (.promiseOf result) = taskOf (m.host result) := by
  rw [host, orOverride_of_none h]

theorem host_keyOf (h : m.override? (.keyOf target) = none) :
    m.host (.keyOf target) = m.keyOfHost target := by
  rw [host, orOverride_of_none h]

theorem host_reference (h : m.override? (.reference text) = none) :
    m.host (.reference text) = m.fallback := by
  rw [host, orOverride_of_none h]

/-- A union with one member that carries a value is mapped like this member,
as nullable if the union says so. -/
theorem host_unionOf_of_sole (h : m.override? (.unionOf members) = none)
    (hSole : TypeExpr.valued members = [t]) :
    m.host (.unionOf members) = m.unionHost [m.host t] := by
  rw [host, orOverride_of_none h, memberHosts_eq, hSole, List.map_singleton]

/-- With several members, or none, there is no host type for a union but the
fallback. -/
theorem host_unionOf_of_several (h : m.override? (.unionOf members) = none)
    (hSeveral : ∀ t, TypeExpr.valued members ≠ [t]) : m.host (.unionOf members) = m.fallback := by
  rw [host, orOverride_of_none h, memberHosts_eq]
  unfold unionHost
  split
  · next hOne => exact absurd hOne (TypeExpr.map_valued_ne_singleton hSeveral)
  · rfl

/-- A type that falls back is mapped to the fallback if there is no override
for it. -/
theorem host_of_fallsBack (h : m.override? t = none) (hFallback : t.FallsBack) :
    m.host t = m.fallback := by
  cases hFallback with
  | symbol => exact host_primitive h
  | reference text => exact host_reference h
  | @keyOf target hTarget =>
      rw [host_keyOf h]
      unfold keyOfHost
      split
      · exact absurd rfl (hTarget _)
      · rfl
  | unionOf hSeveral => exact host_unionOf_of_several h hSeveral

theorem introduced_arrayOf (h : m.override? (.arrayOf element) = none) :
    m.introduced (.arrayOf element) = m.introduced element := by
  rw [introduced, orGenerics_of_none h]

theorem introduced_promiseOf (h : m.override? (.promiseOf result) = none) :
    m.introduced (.promiseOf result) = m.introduced result := by
  rw [introduced, orGenerics_of_none h]

/-- The generics of a union are those of the member that gives its host
type. -/
theorem introduced_unionOf_of_sole (h : m.override? (.unionOf members) = none)
    (hSole : TypeExpr.valued members = [t]) :
    m.introduced (.unionOf members) = m.introduced t := by
  rw [introduced, orGenerics_of_none h, introducedByMembers_eq, hSole, List.map_singleton]

theorem introduced_unionOf_of_several (h : m.override? (.unionOf members) = none)
    (hSeveral : ∀ t, TypeExpr.valued members ≠ [t]) : m.introduced (.unionOf members) = [] := by
  rw [introduced, orGenerics_of_none h, introducedByMembers_eq]
  split
  · next hOne => exact absurd hOne (TypeExpr.map_valued_ne_singleton hSeveral)
  · rfl

end Bare

/-! ### No overrides -/

/-- Without overrides every type is mapped by its structure. This is the
case in which the host type can be told from the type alone. -/
theorem override?_of_empty (h : m.overrides = .empty) (t : TypeExpr) : m.override? t = none := by
  rw [override?, h]
  rfl

theorem introduced_of_empty (h : m.overrides = .empty) (t : TypeExpr) : m.introduced t = [] := by
  have hBare := override?_of_empty h
  induction t using TypeExpr.induction with
  | primitive p | reference text | keyOf target _ =>
      rw [introduced, orGenerics_of_none (hBare _)]
  | genericRef name => rw [introduced]
  | arrayOf element ih => rw [introduced_arrayOf (hBare _), ih]
  | promiseOf result ih => rw [introduced_promiseOf (hBare _), ih]
  | unionOf members ih =>
      by_cases hSole : ∃ t, TypeExpr.valued members = [t]
      · obtain ⟨t, hSole⟩ := hSole
        rw [introduced_unionOf_of_sole (hBare _) hSole]
        exact ih t (TypeExpr.mem_of_valued hSole)
      · exact introduced_unionOf_of_several (hBare _) (not_exists.mp hSole)

end TypeMap

end ScriptBindings
