import ScriptBindings.Proofs.Repetitions
import ScriptBindings.Proofs.TypeExpr.Members

/-! What the types are like that reading gives. A type that is not made up
of other types is kept as a text that reads as the same type again, and
unions have at least two members, all different. -/
namespace ScriptBindings.TypeExpr

open Text Outcomes ScriptBindings.Bracket

variable {generics : List String} {text : List Char} {t : TypeExpr} {form : Form}

/-- The forms of types that are not made up of other types. -/
def Form.IsLeaf : Form → Prop
  | .applied name _ =>
      name ≠ "Promise".toList ∧ name ≠ "Array".toList ∧ name ≠ "ReadonlyArray".toList
  | .plain => True
  | _ => False

/-- A member whose canonical text reads as it and is not made up of other
types. -/
structure Leaf (generics : List String) (t : TypeExpr) : Prop where
  text : MemberText t.canonical.toList
  form : ∃ form, Form.of t.canonical.toList = .ok form ∧ form.IsLeaf
  reads : parseMember generics t.canonical.toList = .ok t

/-- The text that a function type is kept as. -/
structure FunctionText (text : List Char) : Prop where
  hasArrow_eq : hasArrow text = .ok true
  trimmed : Trimmed text
  ne_nil : text ≠ []
  normal : normalise text = text

/-- The types that reading a balanced text gives, with these type parameters
in scope. -/
inductive Parsed (generics : List String) : TypeExpr → Prop where
  | leaf {t : TypeExpr} (hLeaf : Leaf generics t) : Parsed generics t
  | function {text : String} (hFunction : FunctionText text.toList)
      (hBalanced : Balanced text.toList) : Parsed generics (.reference text)
  | arrayOf {element : TypeExpr} (hElement : Parsed generics element) :
      Parsed generics (.arrayOf element)
  | promiseOf {result : TypeExpr} (hResult : Parsed generics result) :
      Parsed generics (.promiseOf result)
  | keyOf {target : TypeExpr} (hTarget : Parsed generics target) :
      Parsed generics (.keyOf target)
  | unionOf {members : List TypeExpr} (hMembers : ∀ t ∈ members, Parsed generics t)
      (hNodup : members.Nodup) (hTwo : 2 ≤ members.length) : Parsed generics (.unionOf members)

/-! ### Leaves -/

/-- An opaque type is written as its text with the blanks in normal form. -/
theorem canonical_opaqueType (text : List Char) :
    (opaqueType text).canonical.toList = normalise text := by
  rw [opaqueType, canonical, String.toList_ofList]

/-- The application of another name is opaque. -/
theorem readForm_of_isLeaf {name argument : List Char} (h : (Form.applied name argument).IsLeaf) :
    readForm generics text (.applied name argument) = .ok (opaqueType text) := by
  obtain ⟨hPromise, hArray, hReadonly⟩ := h
  rw [readForm, if_neg hPromise, if_neg (not_or.mpr ⟨hArray, hReadonly⟩)]

/-- A text that reads as an opaque type is kept as a leaf. -/
theorem leaf_opaqueType (h : MemberText text) (hForm : Form.of text = .ok form)
    (hLeaf : form.IsLeaf) (hReads : readForm generics text form = .ok (opaqueType text)) :
    Leaf generics (opaqueType text) := by
  have hRelaid := h.trimmed.relaid_normalise
  have hText := h.relaid hRelaid
  obtain ⟨other, hOther, hSame⟩ := Form.exists_of_relaid hRelaid h.balanced hForm
  have hAgain : other.IsLeaf ∧
      readForm generics (normalise text) other = .ok (opaqueType (normalise text)) := by
    cases hSame with
    | grouped | readonlyOf | keyOf | array => exact hLeaf.elim
    | applied _ =>
        exact ⟨hLeaf, readForm_of_isLeaf hLeaf⟩
    | plain =>
        refine ⟨trivial, ?_⟩
        by_cases hName : isName (normalise text) = true
        · have hNoBlank : ∀ c ∈ normalise text, isBlank c = false := fun c hc =>
            isBlank_of_isNameChar (isNameChar_of_isName hName hc)
          rwa [hRelaid.symm.eq_of_no_blank hNoBlank]
        · rw [readForm, ofPlain, if_neg hName]
  rw [← opaqueType_relaid hRelaid] at hAgain
  refine ⟨?_, ?_, ?_⟩ <;> rw [canonical_opaqueType]
  · exact hText
  · exact ⟨other, hOther, hAgain.1⟩
  · rw [parseMember_of_form hText.trimmed hOther, hAgain.2]

theorem canonical_ofPlain (h : isName text = true) :
    (ofPlain generics text).canonical.toList = text := by
  unfold ofPlain
  rw [if_pos h]
  split
  · next p hKeyword =>
      have hSame : p.keyword = String.ofList text := by
        simpa using List.find?_some hKeyword
      rw [canonical, hSame, String.toList_ofList]
  · split
    · rw [canonical, String.toList_ofList]
    · rw [canonical_opaqueType, normalise_of_isName h]

/-- A plain member becomes a leaf: a keyword, a type parameter, or a
reference. -/
theorem leaf_ofPlain (h : MemberText text) (hForm : Form.of text = .ok .plain) :
    Leaf generics (ofPlain generics text) := by
  by_cases hName : isName text = true
  · refine ⟨?_, ?_, ?_⟩ <;> rw [canonical_ofPlain hName]
    · exact h
    · exact ⟨.plain, hForm, trivial⟩
    · rw [parseMember_of_form h.trimmed hForm, readForm]
  · have hOpaque : ofPlain generics text = opaqueType text := by rw [ofPlain, if_neg hName]
    rw [hOpaque]
    exact leaf_opaqueType h hForm trivial (by rw [readForm, hOpaque])

/-- A text with an arrow has one after its blanks were normalised, so that
it is still read as a function. -/
theorem functionText_normalise (hTrimmed : Trimmed text) (hNil : text ≠ [])
    (hArrow : hasArrow text = .ok true) : FunctionText (normalise text) := by
  have hRelaid := hTrimmed.relaid_normalise
  exact ⟨hasArrow_relaid hRelaid hArrow, hRelaid.trimmed hTrimmed, hRelaid.ne_nil hNil,
    hRelaid.symm.normalise_eq⟩

/-! ### Unions -/

/-- A union of parsed types without repetitions is a parsed type, or the one
type that is left. -/
theorem parsed_ofMembers {members : List TypeExpr} (h : ∀ t ∈ members, Parsed generics t)
    (hUnion : ofMembers members = .ok t) : Parsed generics t := by
  have hDistinct : ∀ t ∈ members.eraseDups, Parsed generics t :=
    fun t ht => h t (List.mem_eraseDups.mp ht)
  have hNodup := nodup_eraseDups members
  unfold ofMembers at hUnion
  match hMembers : members.eraseDups with
  | [] =>
      rw [hMembers] at hUnion
      cases hUnion
  | [only] =>
      rw [hMembers] at hUnion
      cases hUnion
      exact hDistinct t (by simp [hMembers])
  | first :: second :: rest =>
      rw [hMembers] at hUnion
      cases hUnion
      rw [hMembers] at hDistinct hNodup
      exact .unionOf hDistinct hNodup (by simp)

/-! ### Readers -/

theorem parsed_opaqueType (hTrimmed : Trimmed text) (hNil : text ≠ [])
    (hArrow : hasArrow text = .ok true) (hText : Balanced text) :
    Parsed generics (opaqueType text) := by
  rw [opaqueType]
  refine .function ?_ ?_ <;> rw [String.toList_ofList]
  · exact functionText_normalise hTrimmed hNil hArrow
  · exact hText.relaid hTrimmed.relaid_normalise

/-- The reader of types gives types of this kind for the text. -/
def ParsesWell (generics : List String) (text : List Char) : Prop :=
  Balanced (trim text) → ∀ t, parse generics text = .ok t → Parsed generics t

/-- The reader of members gives types of this kind for the text. -/
def ReadsWell (generics : List String) (text : List Char) : Prop :=
  MemberText (trim text) → ∀ t, parseMember generics text = .ok t → Parsed generics t

/-- Whatever is read of a text is a parsed type if this holds of its
members. -/
theorem parsesWell_of_members (h : ∀ pieces, memberTexts (trim text) = .ok pieces →
    ∀ piece ∈ pieces, ReadsWell generics piece) : ParsesWell generics text := by
  intro hText t hReads
  obtain ⟨hNil, ⟨hArrow, rfl⟩ | ⟨hArrow, pieces, members, hPieces, hMembers, hUnion⟩⟩ :=
    parse_eq_ok_iff.mp hReads
  · exact parsed_opaqueType (trimmed_trim text) hNil hArrow hText
  · refine parsed_ofMembers (fun member hMember => ?_) hUnion
    obtain ⟨piece, hPiece, hRead⟩ := mapM_ok_mem (mapM_ok_iff.mpr hMembers) hMember
    have hMemberText := MemberText.of_mem_memberTexts hArrow hPieces hPiece
    rw [← hMemberText.trimmed.trim_eq] at hMemberText
    exact h pieces hPieces piece hPiece hMemberText member hRead

/-- An application of `Promise` or of an array type has its argument as a
part, and any other is a leaf. -/
theorem parsed_of_applied {name argument : List Char} (h : MemberText text)
    (hForm : Form.of text = .ok (.applied name argument)) (hArgument : Balanced argument)
    (hPart : ParsesWell generics argument)
    (hReads : readForm generics text (.applied name argument) = .ok t) : Parsed generics t := by
  have hResult {result : TypeExpr} (hInner : parse generics argument = .ok result) :
      Parsed generics result := hPart hArgument.trim result hInner
  by_cases hLeaf : (Form.applied name argument).IsLeaf
  · rw [readForm_of_isLeaf hLeaf] at hReads
    cases hReads
    exact .leaf (leaf_opaqueType h hForm hLeaf (readForm_of_isLeaf hLeaf))
  · rw [readForm] at hReads
    split at hReads
    · obtain ⟨inner, hInner, rfl⟩ := map_ok hReads
      exact .promiseOf (hResult hInner)
    · next hPromise =>
        split at hReads
        · obtain ⟨inner, hInner, rfl⟩ := map_ok hReads
          exact .arrayOf (hResult hInner)
        · next hArray => exact absurd ⟨hPromise, not_or.mp hArray⟩ hLeaf

/-- And it holds of a member if it does of the parts of its form. The
parser's induction is made of these two. -/
theorem readsWell_of_parts (h : ∀ form, Form.of (trim text) = .ok form →
    ∀ part ∈ form.parts, ParsesWell generics part ∧ ReadsWell generics part) :
    ReadsWell generics text := by
  intro hText t hReads
  obtain ⟨form, hForm, hReads⟩ := parseMember_eq_ok_iff.mp hReads
  have hParts := h form hForm
  cases Form.of_eq_ok_iff.mp hForm with
  | @grouped inside found =>
      obtain ⟨-, hInside⟩ := grouped?_eq_some_iff.mp found
      exact (hParts inside List.mem_cons_self).1 hInside.trim t hReads
  | @readonlyOf rest _ found =>
      exact (hParts rest List.mem_cons_self).2 (hText.of_afterWord? rfl found) t hReads
  | @keyOf target _ _ found =>
      obtain ⟨inner, hInner, rfl⟩ := map_ok hReads
      exact .keyOf ((hParts target List.mem_cons_self).2 (hText.of_afterWord? rfl found) _ hInner)
  | @array element _ _ _ found =>
      obtain ⟨inner, hInner, rfl⟩ := map_ok hReads
      obtain ⟨hSquares, hNil⟩ := element?_eq_some_iff.mp found
      rw [hSquares] at hText
      exact .arrayOf ((hParts element List.mem_cons_self).2 (hText.of_squares hNil) _ hInner)
  | @applied name argument _ _ _ _ found =>
      obtain ⟨_, _, _, _, _, hArgument, _⟩ := application?_eq_some_iff.mp found
      exact parsed_of_applied hText hForm hArgument (hParts argument List.mem_cons_self).1 hReads
  | plain =>
      cases hReads
      exact .leaf (leaf_ofPlain hText hForm)

/-- Both readers give types of this kind only. -/
theorem parsed_of_reading (text : List Char) :
    ParsesWell generics text ∧ ReadsWell generics text :=
  reading_induction (fun _ => parsesWell_of_members) (fun _ => readsWell_of_parts) text

/-- A type that is read is of this kind, or a function type with anything
behind its arrow. -/
theorem parsed_or_function (h : parse generics text = .ok t) :
    Parsed generics t ∨ ∃ name, t = .reference name ∧ FunctionText name.toList := by
  obtain ⟨hNil, ⟨hArrow, rfl⟩ | ⟨hArrow, -⟩⟩ := parse_eq_ok_iff.mp h
  · refine Or.inr ⟨_, rfl, ?_⟩
    rw [String.toList_ofList]
    exact functionText_normalise (trimmed_trim text) hNil hArrow
  · obtain ⟨hBalanced, -⟩ := hasArrow_eq_false_iff.mp hArrow
    exact Or.inl ((parsed_of_reading text).1 hBalanced t h)

end ScriptBindings.TypeExpr
