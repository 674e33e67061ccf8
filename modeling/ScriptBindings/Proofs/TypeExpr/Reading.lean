import ScriptBindings.Proofs.Outcomes
import ScriptBindings.Proofs.Text.Trimming
import ScriptBindings.TypeExpr.Parser

/-! How type expressions are read, one equation for each reader. A form is
found exactly when the forms that are tried before it are absent. -/
namespace ScriptBindings.TypeExpr

open Text ScriptBindings.Bracket Outcomes

/-- The outermost form of a text: it has this form and none of the earlier
ones. -/
inductive Form.Found (text : List Char) : Form → Prop where
  | grouped {inside : List Char} (found : grouped? text = .ok (some inside)) :
      Found text (.grouped inside)
  | readonlyOf {rest : List Char} (notGrouped : grouped? text = .ok none)
      (found : afterWord? "readonly" text = some rest) : Found text (.readonlyOf rest)
  | keyOf {target : List Char} (notGrouped : grouped? text = .ok none)
      (notReadonly : afterWord? "readonly" text = none)
      (found : afterWord? "keyof" text = some target) : Found text (.keyOf target)
  | array {element : List Char} (notGrouped : grouped? text = .ok none)
      (notReadonly : afterWord? "readonly" text = none)
      (notKeyOf : afterWord? "keyof" text = none)
      (found : element? text = some element) : Found text (.array element)
  | applied {name argument : List Char} (notGrouped : grouped? text = .ok none)
      (notReadonly : afterWord? "readonly" text = none)
      (notKeyOf : afterWord? "keyof" text = none) (notArray : element? text = none)
      (found : application? text = .ok (some (name, argument))) :
      Found text (.applied name argument)
  | plain (notGrouped : grouped? text = .ok none)
      (notReadonly : afterWord? "readonly" text = none)
      (notKeyOf : afterWord? "keyof" text = none) (notArray : element? text = none)
      (notApplied : application? text = .ok none) : Found text .plain

/-- The form of a member as the first of the tests that succeeds. This says
once what each test means, and later proofs use it in place of the tests. -/
theorem Form.of_eq_ok_iff {text : List Char} {form : Form} :
    Form.of text = .ok form ↔ Form.Found text form := by
  constructor
  · intro h
    obtain ⟨group, hGroup, h⟩ := bind_ok h
    cases group with
    | some inside =>
        cases h
        exact .grouped hGroup
    | none =>
        cases hReadonly : afterWord? "readonly" text with
        | some rest =>
            simp only [hReadonly, pure_eq_ok, Except.ok.injEq] at h
            exact h ▸ .readonlyOf hGroup hReadonly
        | none =>
            cases hKeyOf : afterWord? "keyof" text with
            | some target =>
                simp only [hReadonly, hKeyOf, pure_eq_ok, Except.ok.injEq] at h
                exact h ▸ .keyOf hGroup hReadonly hKeyOf
            | none =>
                cases hArray : element? text with
                | some element =>
                    simp only [hReadonly, hKeyOf, hArray, pure_eq_ok, Except.ok.injEq] at h
                    exact h ▸ .array hGroup hReadonly hKeyOf hArray
                | none =>
                    simp only [hReadonly, hKeyOf, hArray] at h
                    obtain ⟨application, hApplied, h⟩ := bind_ok h
                    cases application with
                    | some pair =>
                        cases h
                        exact .applied hGroup hReadonly hKeyOf hArray hApplied
                    | none =>
                        cases h
                        exact .plain hGroup hReadonly hKeyOf hArray hApplied
  · intro h
    cases h <;> simp_all [Form.of]

/-- A form is found unless one of its two searches for brackets meets a
fault. -/
theorem Form.exists_of {text : List Char} {group : Option (List Char)}
    {application : Option (List Char × List Char)} (hGroup : grouped? text = .ok group)
    (hApplied : application? text = .ok application) : ∃ form, Form.of text = .ok form := by
  unfold Form.of
  rw [hGroup, hApplied]
  cases group with
  | some inside => exact ⟨_, rfl⟩
  | none =>
      simp only [ok_bind]
      split
      · exact ⟨_, rfl⟩
      · split
        · exact ⟨_, rfl⟩
        · split
          · exact ⟨_, rfl⟩
          · cases application with
            | some pair => exact ⟨_, rfl⟩
            | none => exact ⟨_, rfl⟩

/-- The members of a union are read one by one. -/
theorem parse_eq (generics : List String) (text : List Char) :
    parse generics text =
      if (trim text).isEmpty then .error .missing
      else
        match hasArrow (trim text) with
        | .error fault => .error (.ofBracket fault)
        | .ok true => .ok (opaqueType (trim text))
        | .ok false =>
            match memberTexts (trim text) with
            | .error fault => .error (.ofBracket fault)
            | .ok pieces => pieces.mapM (parseMember generics) >>= ofMembers := by
  rw [parse]
  cases hasArrow (trim text) with
  | error fault => rfl
  | ok arrow =>
      cases arrow with
      | true => rfl
      | false =>
          dsimp only
          split
          · rfl
          · split
            · next hMembers => rw [hMembers]
            · next pieces hMembers =>
                -- The reader carries the membership of each piece for its termination only.
                rw [List.mapM_subtype fun _ _ => rfl, List.unattach_attach, hMembers]
                dsimp only
                cases pieces.mapM (parseMember generics) <;> rfl

/-- Blanks around a type do not matter. -/
theorem parse_trim (generics : List String) (text : List Char) :
    parse generics (trim text) = parse generics text := by
  rw [parse_eq, (trimmed_trim text).trim_eq, ← parse_eq]

/-- A type is read as an opaque function type or as the union of its
members. -/
theorem parse_eq_ok_iff {generics : List String} {text : List Char} {t : TypeExpr} :
    parse generics text = .ok t ↔ trim text ≠ [] ∧
      ((hasArrow (trim text) = .ok true ∧ t = opaqueType (trim text)) ∨
        (hasArrow (trim text) = .ok false ∧ ∃ pieces members, memberTexts (trim text) = .ok pieces ∧
          List.Forall₂ (fun piece member => parseMember generics piece = .ok member) pieces members ∧
          ofMembers members = .ok t)) := by
  rw [parse_eq, ← List.isEmpty_eq_false_iff]
  cases (trim text).isEmpty with
  | true => simp
  | false =>
      cases hasArrow (trim text) with
      | error fault => simp
      | ok found =>
          cases found with
          | true => simp [eq_comm]
          | false =>
              cases memberTexts (trim text) with
              | error fault => simp
              | ok pieces =>
                  constructor
                  · intro h
                    obtain ⟨members, hMembers, hUnion⟩ := bind_ok h
                    exact ⟨rfl, Or.inr ⟨rfl, pieces, members, rfl, mapM_ok_iff.mp hMembers, hUnion⟩⟩
                  · rintro ⟨-, ⟨hArrow, -⟩ | ⟨-, _, members, hPieces, hMembers, hUnion⟩⟩
                    · cases hArrow
                    · cases hPieces
                      show pieces.mapM (parseMember generics) >>= ofMembers = _
                      rw [mapM_ok_iff.mpr hMembers, ok_bind, hUnion]

/-- A text with an arrow outside of brackets is taken as it is, before
anything else is looked for in it. -/
theorem parse_of_arrow {generics : List String} {text : List Char}
    (h : hasArrow (trim text) = .ok true) :
    parse generics text = .ok (opaqueType (trim text)) := by
  refine parse_eq_ok_iff.mpr ⟨fun hNil => ?_, Or.inl ⟨h, rfl⟩⟩
  rw [hNil] at h
  cases h

theorem parse_of_arrow_error {generics : List String} {text : List Char} {fault : Bracket.Fault}
    (h : hasArrow (trim text) = .error fault) :
    parse generics text = .error (.ofBracket fault) := by
  have hNil : (trim text).isEmpty = false := by
    rw [List.isEmpty_eq_false_iff]
    intro hNil
    rw [hNil] at h
    cases h
  rw [parse_eq, hNil, if_neg Bool.false_ne_true, h]

/-- Any other text is cut at its bars, and the members are read and put
together. -/
theorem parse_of_members {generics : List String} {text : List Char} {pieces : List (List Char)}
    (hTrimmed : Trimmed text) (hNil : text ≠ []) (hArrow : hasArrow text = .ok false)
    (hPieces : memberTexts text = .ok pieces) :
    parse generics text = pieces.mapM (parseMember generics) >>= ofMembers := by
  rw [parse_eq, hTrimmed.trim_eq, List.isEmpty_eq_false_iff.mpr hNil, if_neg Bool.false_ne_true,
    hArrow]
  simp only [hPieces]

/-- How a member of this form is read, where `text` is the whole member. -/
def readForm (generics : List String) (text : List Char) : Form → Except Fault TypeExpr
  | .grouped inside => parse generics inside
  | .readonlyOf rest => parseMember generics rest
  | .keyOf target => (parseMember generics target).map .keyOf
  | .array element => (parseMember generics element).map .arrayOf
  | .applied name argument =>
      if name = "Promise".toList then (parse generics argument).map .promiseOf
      else if name = "Array".toList ∨ name = "ReadonlyArray".toList then
        (parse generics argument).map .arrayOf
      else .ok (opaqueType text)
  | .plain => .ok (ofPlain generics text)

/-- The recursion of the parser with its fuel taken away: a member is read
through the parts of its form. -/
theorem parseMember_eq (generics : List String) (text : List Char) :
    parseMember generics text =
      match Form.of (trim text) with
      | .error fault => .error (.ofBracket fault)
      | .ok form => readForm generics (trim text) form := by
  have hName (name : List Char) (word : String) :
      String.ofList name = word ↔ name = word.toList := by
    rw [← String.toList_inj, String.toList_ofList]
  rw [parseMember]
  split
  case h_6 name argument hForm =>
    rw [hForm]
    simp only [readForm, ← hName]
    split <;> simp_all
  all_goals
    next hForm => simp only [hForm, readForm]

theorem parseMember_trim (generics : List String) (text : List Char) :
    parseMember generics (trim text) = parseMember generics text := by
  rw [parseMember_eq, (trimmed_trim text).trim_eq, ← parseMember_eq]

/-- Reading a member succeeds exactly if it has a form and the parts of the
form are read. -/
theorem parseMember_eq_ok_iff {generics : List String} {text : List Char} {t : TypeExpr} :
    parseMember generics text = .ok t ↔
      ∃ form, Form.of (trim text) = .ok form ∧ readForm generics (trim text) form = .ok t := by
  rw [parseMember_eq]
  cases Form.of (trim text) <;> simp

/-- Induction along the readers: members are read in types, and the parts of
a form, which are shorter, in members. -/
theorem reading_induction {whole member : List Char → Prop}
    (hWhole : ∀ text, (∀ pieces, memberTexts (trim text) = .ok pieces →
      ∀ piece ∈ pieces, member piece) → whole text)
    (hMember : ∀ text, (∀ form, Form.of (trim text) = .ok form →
      ∀ part ∈ form.parts, whole part ∧ member part) → member text)
    (text : List Char) : whole text ∧ member text := by
  induction hLength : text.length using Nat.strongRecOn generalizing text with
  | ind n ih =>
      have hMembers (other : List Char) (hOther : other.length ≤ n) : member other := by
        refine hMember other fun form hForm part hPart => ih part.length ?_ part rfl
        have hShorter := Form.length_lt hForm hPart
        have hTrim := length_trim_le other
        omega
      refine ⟨hWhole text fun pieces hPieces piece hPiece => hMembers piece ?_,
        hMembers text (Nat.le_of_eq hLength)⟩
      have hPieceLength := length_memberTexts_le hPieces hPiece
      have hTrim := length_trim_le text
      omega

end ScriptBindings.TypeExpr
