import ScriptBindings.Proofs.TypeExpr.Parsed
import ScriptBindings.Proofs.TypeExpr.RoundTrip

/-! Nested unions. A union that is a member of another one has no
parentheses in the canonical text, so that its members stand there as
members of the outer union. Types whose unions are nested differently have
one canonical text: that of the type in which every union is spread into the
union around it. -/
namespace ScriptBindings.TypeExpr

open Text Outcomes ScriptBindings.Bracket

/-- The members of a union, or the type itself if it is none. -/
def unionMembers : TypeExpr → List TypeExpr
  | .unionOf members => members
  | t => [t]

mutual

/-- The type without unions that are members of unions. -/
def spread : TypeExpr → TypeExpr
  | .primitive p => .primitive p
  | .arrayOf element => .arrayOf element.spread
  | .unionOf members => .unionOf (spreadAll members)
  | .promiseOf result => .promiseOf result.spread
  | .keyOf target => .keyOf target.spread
  | .reference text => .reference text
  | .genericRef name => .genericRef name

def spreadAll : List TypeExpr → List TypeExpr
  | [] => []
  | t :: rest => t.spread.unionMembers ++ spreadAll rest

end

/-- The union of all different members, or the only one of them. -/
def ofDistinct (members : List TypeExpr) : TypeExpr :=
  match members.eraseDups with
  | [t] => t
  | distinct => .unionOf distinct

mutual

/-- The type without repeated members of unions. -/
def distinct : TypeExpr → TypeExpr
  | .primitive p => .primitive p
  | .arrayOf element => .arrayOf element.distinct
  | .unionOf members => ofDistinct (distinctAll members)
  | .promiseOf result => .promiseOf result.distinct
  | .keyOf target => .keyOf target.distinct
  | .reference text => .reference text
  | .genericRef name => .genericRef name

def distinctAll : List TypeExpr → List TypeExpr
  | [] => []
  | t :: rest => t.distinct :: distinctAll rest

end

/-- A function type is kept as its text, in which an arrow is outside all
brackets. -/
def isFunction : TypeExpr → Bool
  | .reference text => (hasArrow text.toList).toOption == some true
  | _ => false

/-- Types that are not made up of other types. -/
def isAtom : TypeExpr → Bool
  | .primitive _ | .reference _ | .genericRef _ => true
  | _ => false

variable {generics : List String} {t : TypeExpr} {members : List TypeExpr}

/-- The members of a list are spread one by one, each replaced by what its
own spread is a union of. -/
theorem spreadAll_eq (members : List TypeExpr) :
    spreadAll members = members.flatMap fun t => t.spread.unionMembers := by
  induction members with
  | nil => rfl
  | cons t rest ih => rw [spreadAll, ih, List.flatMap_cons]

theorem distinctAll_eq (members : List TypeExpr) : distinctAll members = members.map distinct := by
  induction members with
  | nil => rfl
  | cons t rest ih => rw [distinctAll, ih, List.map_cons]

@[simp] theorem spread_of_isAtom (h : t.isAtom = true) : t.spread = t := by
  cases t <;> first | rfl | cases h

@[simp] theorem distinct_of_isAtom (h : t.isAtom = true) : t.distinct = t := by
  cases t <;> first | rfl | cases h

theorem isUnion_of_isAtom (h : t.isAtom = true) : t.isUnion = false := by
  cases t <;> first | rfl | cases h

/-- Spreading does not change whether parentheses are needed around a
type. -/
@[simp] theorem bindsLoosely_spread (t : TypeExpr) : t.spread.bindsLoosely = t.bindsLoosely := by
  cases t <;> rfl

@[simp] theorem isFunction_spread (t : TypeExpr) : t.spread.isFunction = t.isFunction := by
  cases t <;> rfl

/-- Whether a reference is a function is seen from its text by the test for
arrows. -/
theorem isFunction_reference {text : String} :
    (reference text).isFunction = true ↔ hasArrow text.toList = .ok true := by
  rw [isFunction]
  cases hasArrow text.toList <;> simp [Except.toOption]

theorem unionMembers_of_isUnion (h : t.isUnion = false) : t.unionMembers = [t] := by
  cases t <;> first | rfl | cases h

theorem isAtom_ofPlain (text : List Char) : (ofPlain generics text).isAtom = true := by
  unfold ofPlain
  split
  · split
    · rfl
    · split <;> rfl
  · rfl

theorem Leaf.isAtom (h : Leaf generics t) : t.isAtom = true := by
  obtain ⟨form, hForm, hLeaf⟩ := h.form
  have hReads := h.reads
  rw [parseMember_of_form h.text.trimmed hForm] at hReads
  cases form with
  | plain =>
      rw [← Except.ok.inj hReads]
      exact isAtom_ofPlain _
  | applied name argument =>
      rw [readForm_of_isLeaf hLeaf] at hReads
      rw [← Except.ok.inj hReads]
      rfl
  | grouped | readonlyOf | keyOf | array => exact hLeaf.elim

/-! ### Types without nested unions -/

/-- No union is a member of a union, at any depth. -/
inductive Flat : TypeExpr → Prop where
  | primitive (p : Primitive) : Flat (.primitive p)
  | reference (text : String) : Flat (.reference text)
  | genericRef (name : String) : Flat (.genericRef name)
  | arrayOf {element : TypeExpr} (hElement : Flat element) : Flat (.arrayOf element)
  | promiseOf {result : TypeExpr} (hResult : Flat result) : Flat (.promiseOf result)
  | keyOf {target : TypeExpr} (hTarget : Flat target) : Flat (.keyOf target)
  | unionOf {members : List TypeExpr} (hMembers : ∀ t ∈ members, Flat t)
      (hNested : ∀ t ∈ members, t.isUnion = false) : Flat (.unionOf members)

/-- A flat type is a union of types that are flat themselves and no
unions. -/
theorem Flat.unionMembers (h : Flat t) :
    ∀ member ∈ t.unionMembers, Flat member ∧ member.isUnion = false := by
  cases hUnion : t.isUnion with
  | false =>
      rw [unionMembers_of_isUnion hUnion, List.forall_mem_singleton]
      exact ⟨h, hUnion⟩
  | true =>
      cases h with
      | unionOf hMembers hNested =>
          exact fun member hMember => ⟨hMembers member hMember, hNested member hMember⟩
      | primitive | reference | genericRef | arrayOf | promiseOf | keyOf => cases hUnion

/-- Spreading leaves no union in a union. -/
theorem flat_spread (t : TypeExpr) : t.spread.Flat := by
  induction t using TypeExpr.induction with
  | primitive p => exact .primitive p
  | reference text => exact .reference text
  | genericRef name => exact .genericRef name
  | arrayOf element ih => exact .arrayOf ih
  | promiseOf result ih => exact .promiseOf ih
  | keyOf target ih => exact .keyOf ih
  | unionOf members ih =>
      have hAll : ∀ t ∈ spreadAll members, Flat t ∧ t.isUnion = false := by
        rw [spreadAll_eq, List.forall_mem_flatMap]
        exact fun t ht => (ih t ht).unionMembers
      exact .unionOf (fun t ht => (hAll t ht).1) fun t ht => (hAll t ht).2

theorem Flat.spread_eq (h : Flat t) : t.spread = t := by
  induction h with
  | primitive | reference | genericRef => rfl
  | arrayOf _ ih | promiseOf _ ih | keyOf _ ih => rw [spread, ih]
  | @unionOf members _ hNested ih =>
      have hAll : ∀ t ∈ members, t.spread.unionMembers = [t] := fun t ht => by
        rw [ih t ht, unionMembers_of_isUnion (hNested t ht)]
      rw [spread, spreadAll_eq, List.flatMap_congr hAll, List.flatMap_singleton']

/-- Spreading changes a type exactly if a union is a member of a union in
it. -/
theorem spread_eq_self_iff : t.spread = t ↔ t.Flat :=
  ⟨fun h => h ▸ flat_spread t, Flat.spread_eq⟩

/-! ### Repeated members -/

/-- What is read has no repeated members. -/
theorem Parsed.distinct_eq (h : Parsed generics t) : t.distinct = t := by
  induction h with
  | leaf hLeaf => exact distinct_of_isAtom hLeaf.isAtom
  | function => rfl
  | arrayOf _ ih => rw [distinct, ih]
  | promiseOf _ ih => rw [distinct, ih]
  | keyOf _ ih => rw [distinct, ih]
  | @unionOf members _ hNodup hTwo ih =>
      have hAll : members.map distinct = members := by
        conv_rhs => rw [← List.map_id members]
        exact List.map_congr_left ih
      rw [distinct, distinctAll_eq, hAll, ofDistinct, eraseDups_of_nodup hNodup]
      match members with
      | _ :: _ :: _ => rfl

/-- A union is made of at least one member without a failure, and repeated
ones are left out. -/
theorem ofMembers_eq_ofDistinct (hNil : members ≠ []) :
    ofMembers members = .ok (ofDistinct members) := by
  obtain ⟨t, ht⟩ := List.exists_mem_of_ne_nil members hNil
  have hSome := List.mem_eraseDups.mpr ht
  unfold ofMembers ofDistinct
  match hDistinct : members.eraseDups with
  | [] => simp [hDistinct] at hSome
  | [_] => rfl
  | _ :: _ :: _ => rfl

/-! ### Canonical texts of nested unions -/

theorem canonical_unionOf (members : List TypeExpr) :
    (unionOf members).canonical.toList =
      " | ".toList.intercalate (members.map fun t => t.canonical.toList) := by
  rw [canonical, String.toList_intercalate, canonicalAll_eq_map, List.map_map]
  rfl

/-- The canonical text of a type is that of its members between bars. -/
theorem canonical_unionMembers (t : TypeExpr) :
    " | ".toList.intercalate (t.unionMembers.map fun t => t.canonical.toList) =
      t.canonical.toList := by
  cases t with
  | unionOf members => rw [canonical_unionOf, unionMembers]
  | _ => exact List.intercalate_singleton

/-- No parsed type is spread to nothing, since no union is read without
members. -/
theorem Parsed.unionMembers_spread_ne_nil (h : Parsed generics t) : t.spread.unionMembers ≠ [] := by
  induction h with
  | leaf hLeaf =>
      rw [spread_of_isAtom hLeaf.isAtom, unionMembers_of_isUnion (isUnion_of_isAtom hLeaf.isAtom)]
      exact List.cons_ne_nil _ _
  | function | arrayOf | promiseOf | keyOf => simp [spread, unionMembers]
  | @unionOf members _ _ hTwo ih =>
      obtain ⟨t, rest, rfl⟩ := List.exists_cons_of_length_pos (Nat.lt_of_lt_of_le Nat.zero_lt_two hTwo)
      rw [spread, unionMembers, spreadAll]
      exact List.append_ne_nil_of_left_ne_nil (ih t List.mem_cons_self) _

/-- The canonical text does not show how unions are nested. -/
theorem Parsed.canonical_spread (h : Parsed generics t) : t.spread.canonical = t.canonical := by
  induction h with
  | leaf hLeaf => rw [spread_of_isAtom hLeaf.isAtom]
  | function => rfl
  | arrayOf _ ih => rw [spread, canonical, canonical, bindsLoosely_spread, ih]
  | promiseOf _ ih => rw [spread, canonical, canonical, ih]
  | keyOf _ ih => rw [spread, canonical, canonical, bindsLoosely_spread, ih]
  | @unionOf members hMembers _ _ ih =>
      rw [← String.toList_inj, spread, canonical_unionOf, canonical_unionOf, spreadAll_eq,
        List.map_flatMap, intercalate_flatMap]
      · congr 1
        refine List.map_congr_left fun t ht => ?_
        rw [canonical_unionMembers, ih t ht]
      · intro t ht
        simpa using (hMembers t ht).unionMembers_spread_ne_nil

end ScriptBindings.TypeExpr
