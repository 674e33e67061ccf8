import ScriptBindings.Proofs.TypeExpr.Spread

/-! Canonical texts that show what they are the text of. Where no union is a
member of a union and no function type stands as an operand, the outermost
form of the canonical text is that of the type and leaves the canonical
texts of its parts. So the text reads back, and no two of these types share
it. -/
namespace ScriptBindings.TypeExpr

open Text Outcomes ScriptBindings.Bracket

/-- The types whose canonical text shows what they are. -/
inductive Legible (generics : List String) : TypeExpr → Prop where
  | leaf {t : TypeExpr} (hLeaf : Leaf generics t) : Legible generics t
  | function {text : String} (hFunction : FunctionText text.toList) :
      Legible generics (.reference text)
  | arrayOf {element : TypeExpr} (hElement : Legible generics element)
      (hFunction : element.isFunction = false) : Legible generics (.arrayOf element)
  | promiseOf {result : TypeExpr} (hResult : Legible generics result)
      (hBalanced : Balanced result.canonical.toList)
      (hLast : result.canonical.toList.getLast? ≠ some '=') : Legible generics (.promiseOf result)
  | keyOf {target : TypeExpr} (hTarget : Legible generics target)
      (hFunction : target.isFunction = false) : Legible generics (.keyOf target)
  | unionOf {members : List TypeExpr} (hMembers : ∀ t ∈ members, Legible generics t)
      (hFlat : ∀ t ∈ members, t.isUnion = false)
      (hFunction : ∀ t ∈ members, t.isFunction = false) (hTwo : 2 ≤ members.length) :
      Legible generics (.unionOf members)

/-- How the canonical text of a type is read. Unless it is a function type,
the text may stand between other texts, that of no union as a member and
that of no loose type as an operand. -/
structure ReadsDistinct (generics : List String) (t : TypeExpr) : Prop where
  reads : parse generics t.canonical.toList = .ok t.distinct
  balanced : t.isFunction = false → Balanced t.canonical.toList
  member : t.isFunction = false → t.isUnion = false → MemberText t.canonical.toList ∧
    parseMember generics t.canonical.toList = .ok t.distinct
  operand : t.isFunction = false → t.bindsLoosely = false →
    grouped? t.canonical.toList = .ok none ∧ afterWord? "readonly" t.canonical.toList = none ∧
      afterWord? "keyof" t.canonical.toList = none

/-- The canonical text of a type where a form takes an operand. -/
def operandText (t : TypeExpr) : List Char :=
  (parenthesise t.bindsLoosely t.canonical).toList

variable {generics : List String} {t other : TypeExpr}

/-- An operand that binds loosely is written in parentheses, which are the
only ones that are written at all. -/
theorem operandText_loose (h : t.bindsLoosely = true) :
    t.operandText = '(' :: (t.canonical.toList ++ [')']) := by
  rw [operandText, h]
  simp [parenthesise]

theorem operandText_tight (h : t.bindsLoosely = false) : t.operandText = t.canonical.toList := by
  rw [operandText, h]
  rfl

theorem canonical_arrayOf (t : TypeExpr) :
    (arrayOf t).canonical.toList = t.operandText ++ ['[', ']'] := by
  rw [canonical, String.toList_append]
  rfl

theorem canonical_keyOf (t : TypeExpr) :
    (keyOf t).canonical.toList = "keyof ".toList ++ t.operandText := by
  rw [canonical, String.toList_append]
  rfl

theorem canonical_promiseOf (t : TypeExpr) :
    (promiseOf t).canonical.toList = "Promise".toList ++ '<' :: (t.canonical.toList ++ ['>']) := by
  rw [canonical, String.toList_append, String.toList_append, List.append_assoc]
  rfl

namespace ReadsDistinct

/-- An operand is read as a member, and no modifier is read off it. -/
theorem operand_reads (h : ReadsDistinct generics t) (hFunction : t.isFunction = false) :
    MemberText t.operandText ∧ parseMember generics t.operandText = .ok t.distinct ∧
      afterWord? "readonly" t.operandText = none ∧ afterWord? "keyof" t.operandText = none := by
  cases hLoose : t.bindsLoosely with
  | true =>
      rw [operandText_loose hLoose, parseMember_grouped (h.balanced hFunction)]
      exact ⟨.grouped (h.balanced hFunction), h.reads, rfl, rfl⟩
  | false =>
      rw [operandText_tight hLoose]
      have hUnion : t.isUnion = false := by cases t <;> first | rfl | cases hLoose
      obtain ⟨hText, hReads⟩ := h.member hFunction hUnion
      exact ⟨hText, hReads, (h.operand hFunction hLoose).2⟩

/-- Parentheses stand around loose types only, so operands show their
type. -/
theorem canonical_eq_of_operandText (h : ReadsDistinct generics t)
    (hOther : ReadsDistinct generics other) (hFunction : t.isFunction = false)
    (hOtherFunction : other.isFunction = false) (hSame : t.operandText = other.operandText) :
    t.canonical = other.canonical := by
  rw [← String.toList_inj]
  cases hLoose : t.bindsLoosely <;> cases hOtherLoose : other.bindsLoosely
  · rwa [operandText_tight hLoose, operandText_tight hOtherLoose] at hSame
  · rw [operandText_tight hLoose, operandText_loose hOtherLoose] at hSame
    have hNone := (h.operand hFunction hLoose).1
    rw [hSame, grouped?_eq_some_iff.mpr ⟨rfl, hOther.balanced hOtherFunction⟩] at hNone
    cases hNone
  · rw [operandText_loose hLoose, operandText_tight hOtherLoose] at hSame
    have hNone := (hOther.operand hOtherFunction hOtherLoose).1
    rw [← hSame, grouped?_eq_some_iff.mpr ⟨rfl, h.balanced hFunction⟩] at hNone
    cases hNone
  · rw [operandText_loose hLoose, operandText_loose hOtherLoose] at hSame
    exact List.append_cancel_right (List.cons.inj hSame).2

/-- What reads as a member reads as a type. -/
theorem of_member (hText : MemberText t.canonical.toList)
    (hReads : parseMember generics t.canonical.toList = .ok t.distinct)
    (hOperand : t.bindsLoosely = false →
      grouped? t.canonical.toList = .ok none ∧ afterWord? "readonly" t.canonical.toList = none ∧
        afterWord? "keyof" t.canonical.toList = none) : ReadsDistinct generics t where
  reads := hText.parse_eq.trans hReads
  balanced := fun _ => hText.balanced
  member := fun _ _ => ⟨hText, hReads⟩
  operand := fun _ => hOperand

end ReadsDistinct

theorem Leaf.readsDistinct (h : Leaf generics t) : ReadsDistinct generics t := by
  obtain ⟨form, hForm, hLeaf⟩ := h.form
  refine .of_member h.text ?_ fun _ => ?_
  · rw [h.reads, distinct_of_isAtom h.isAtom]
  · cases Form.of_eq_ok_iff.mp hForm with
    | grouped | readonlyOf | keyOf | array => exact hLeaf.elim
    | applied notGrouped notReadonly notKeyOf => exact ⟨notGrouped, notReadonly, notKeyOf⟩
    | plain notGrouped notReadonly notKeyOf => exact ⟨notGrouped, notReadonly, notKeyOf⟩

/-- The text of a function is read back as a reference with that text, since
nothing of it is taken apart. -/
theorem FunctionText.readsDistinct {text : String} (h : FunctionText text.toList) :
    ReadsDistinct generics (.reference text) := by
  have hFunction : (reference text).isFunction = true := isFunction_reference.mpr h.hasArrow_eq
  refine ⟨?_, ?_, ?_, ?_⟩
  · have hArrow : hasArrow (trim text.toList) = .ok true := by
      rw [h.trimmed.trim_eq, h.hasArrow_eq]
    rw [canonical, parse_of_arrow hArrow, h.trimmed.trim_eq, opaqueType, h.normal,
      String.ofList_toList, distinct]
  · rw [hFunction]
    rintro ⟨⟩
  · rw [hFunction]
    rintro ⟨⟩
  · rw [hFunction]
    rintro ⟨⟩

/-- An array is read back if its element is. Functions are excluded, as they
are not put in parentheses. -/
theorem ReadsDistinct.arrayOf (h : ReadsDistinct generics t) (hFunction : t.isFunction = false) :
    ReadsDistinct generics (.arrayOf t) := by
  obtain ⟨hText, hReads, hReadonly, hKeyOf⟩ := h.operand_reads hFunction
  have hSquares := hText.squares
  refine .of_member ?_ ?_ fun _ => ?_ <;> rw [canonical_arrayOf]
  · exact hSquares
  · rw [parseMember_array hSquares.balanced hText.trimmed hText.ne_nil hReadonly hKeyOf, hReads]
    rfl
  · exact ⟨grouped?_eq_none hSquares.balanced (by simp),
      afterWord?_append_eq_none hReadonly rfl rfl rfl, afterWord?_append_eq_none hKeyOf rfl rfl rfl⟩

/-- A promise is read back if its result is, because the brackets keep it
apart from what surrounds it. -/
theorem ReadsDistinct.promiseOf (h : ReadsDistinct generics t)
    (hBalanced : Balanced t.canonical.toList) (hLast : t.canonical.toList.getLast? ≠ some '=') :
    ReadsDistinct generics (.promiseOf t) := by
  have hName : isName "Promise".toList = true := rfl
  have hText := MemberText.applied hName hBalanced hLast
  refine .of_member ?_ ?_ fun _ => ?_ <;> rw [canonical_promiseOf]
  · exact hText
  · rw [parseMember_promise hBalanced hLast, h.reads]
    rfl
  · cases Form.of_eq_ok_iff.mp (form_applied hName hBalanced hLast) with
    | applied notGrouped notReadonly notKeyOf => exact ⟨notGrouped, notReadonly, notKeyOf⟩

theorem ReadsDistinct.keyOf (h : ReadsDistinct generics t) (hFunction : t.isFunction = false) :
    ReadsDistinct generics (.keyOf t) := by
  obtain ⟨hText, hReads, -, -⟩ := h.operand_reads hFunction
  refine .of_member ?_ ?_ (by rintro ⟨⟩) <;> rw [canonical_keyOf]
  · exact hText.keyOf
  · rw [parseMember_keyOf hText.trimmed hText.ne_nil, hReads]
    rfl

/-- Members that are neither unions nor function types may be joined. -/
theorem memberText_of_flat {members : List TypeExpr} (h : ∀ t ∈ members, ReadsDistinct generics t)
    (hFlat : ∀ t ∈ members, t.isUnion = false) (hFunction : ∀ t ∈ members, t.isFunction = false) :
    ∀ text ∈ members.map fun t => t.canonical.toList, MemberText text := by
  intro text hText
  obtain ⟨t, ht, rfl⟩ := List.mem_map.mp hText
  exact ((h t ht).member (hFunction t ht) (hFlat t ht)).1

/-- A union is read back if its members are, with those that repeat another
one left out. -/
theorem ReadsDistinct.unionOf {members : List TypeExpr}
    (h : ∀ t ∈ members, ReadsDistinct generics t) (hFlat : ∀ t ∈ members, t.isUnion = false)
    (hFunction : ∀ t ∈ members, t.isFunction = false) (hTwo : 2 ≤ members.length) :
    ReadsDistinct generics (.unionOf members) := by
  have hMember := memberText_of_flat h hFlat hFunction
  have hSome : members ≠ [] := List.length_pos_iff.mp (Nat.lt_of_lt_of_le Nat.zero_lt_two hTwo)
  have hNil : (members.map fun t => t.canonical.toList) ≠ [] := by simpa using hSome
  have hReads : (members.map fun t => t.canonical.toList).mapM (parseMember generics) =
      .ok (members.map distinct) := by
    rw [mapM_ok_iff, List.forall₂_map_left_iff, List.forall₂_map_right_iff, List.forall₂_same]
    exact fun t ht => ((h t ht).member (hFunction t ht) (hFlat t ht)).2
  refine ⟨?_, fun _ => ?_, by rintro - ⟨⟩, by rintro - ⟨⟩⟩ <;> rw [canonical_unionOf]
  · rw [parse_joined hMember hNil, hReads, ok_bind,
      ofMembers_eq_ofDistinct (by simpa using hSome), distinct, distinctAll_eq]
  · exact balanced_joined hMember

/-- By induction: every legible type is read back from its text, up to
repeated members of unions. -/
theorem Legible.readsDistinct (h : Legible generics t) : ReadsDistinct generics t := by
  induction h with
  | leaf hLeaf => exact hLeaf.readsDistinct
  | function hFunction => exact hFunction.readsDistinct
  | arrayOf _ hFunction ih => exact ih.arrayOf hFunction
  | promiseOf _ hBalanced hLast ih => exact ih.promiseOf hBalanced hLast
  | keyOf _ hFunction ih => exact ih.keyOf hFunction
  | unionOf _ hFlat hFunction hTwo ih => exact .unionOf ih hFlat hFunction hTwo

end ScriptBindings.TypeExpr
