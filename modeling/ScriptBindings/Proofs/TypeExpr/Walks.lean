import ScriptBindings.Proofs.Bracket.Cutting
import ScriptBindings.Proofs.Bracket.Ends
import ScriptBindings.Proofs.Bracket.Grouping
import ScriptBindings.Proofs.TypeExpr.Reading

/-! The walks over brackets that the reading of a type makes. On a balanced
text every one of them succeeds, at any depth. No type is refused for its
brackets unless one of these walks fails. -/
namespace ScriptBindings

namespace Bracket

/-- A walk that cuts a text: off its first group, at its separators or at
the first character that is accepted. -/
inductive Walk where
  | group (text : List Char)
  | split (separator : Char) (text : List Char)
  | search (accepts : Char → List Char → Bool) (text : List Char)

/-- The walk meets no fault, and a group that it looks for is there. -/
def Walk.Succeeds : Walk → Prop
  | .group text => ∃ inside rest, group? text = .ok (some (inside, rest))
  | .split separator text => ∃ pieces, splitTop separator text = .ok pieces
  | .search accepts text => ∃ found, breakTop accepts text = .ok found

/-- One of these walks fails. -/
def Walk.SomeFails (walks : Walk → Prop) : Prop :=
  ∃ walk, walks walk ∧ ¬walk.Succeeds

end Bracket

namespace TypeExpr

open Text Outcomes ScriptBindings.Bracket

/-- What is being read: a type or a member of a union. -/
inductive Reader where
  | type
  | member
  deriving DecidableEq, Repr

/-- The walks that a reader makes over a text and over the parts that it
leaves to other readers. -/
inductive Reader.Walks : Reader → List Char → Walk → Prop where
  | arrow (text : List Char) :
      Walks .type text (.search (fun c rest => c == '=' && rest.head? == some '>') (trim text))
  | members (text : List Char) : Walks .type text (.split '|' (trim text))
  | member {text piece : List Char} {pieces : List (List Char)} {walk : Walk}
      (hPieces : memberTexts (trim text) = .ok pieces) (hPiece : piece ∈ pieces)
      (later : Walks .member piece walk) : Walks .type text walk
  | group {text : List Char} (hRound : (trim text).head? = some '(') :
      Walks .member text (.group (trim text))
  | argument {text : List Char} (hAngle : '<' ∈ trim text)
      (hName : ((trimEnd ((trim text).takeWhile (· != '<'))).splitOn '.').all isName = true) :
      Walks .member text (.group ((trim text).dropWhile (· != '<')))
  | part {text part : List Char} {form : Form} {reader : Reader} {walk : Walk}
      (hForm : Form.of (trim text) = .ok form) (hPart : part ∈ form.parts)
      (later : Walks reader part walk) : Walks .member text walk

variable {text name inside argument piece part : List Char}

/-- The texts of the members are balanced, so that a walk over one of them
does not fail on its own. -/
theorem balanced_of_mem_memberTexts {pieces : List (List Char)}
    (hPieces : memberTexts text = .ok pieces) (hPiece : piece ∈ pieces) : Balanced piece := by
  obtain ⟨cut, hCut, hAll⟩ := bind_ok hPieces
  cases hAll
  obtain ⟨raw, hRaw, rfl⟩ := List.mem_map.mp (List.mem_filter.mp hPiece).1
  exact (balanced_of_mem_splitTop (by decide) hCut hRaw).trim

/-- Parentheses are around the whole if their group is all of the text. -/
theorem grouped?_some (h : grouped? text = .ok (some inside)) :
    text.head? = some '(' ∧ group? text = .ok (some (inside, [])) := by
  unfold grouped? at h
  split at h
  · next hHead =>
      obtain ⟨found, hFound, h⟩ := bind_ok h
      split at h
      · cases h
        exact ⟨by simpa using hHead, hFound⟩
      · cases h
  · cases h

theorem grouped?_error {fault : Bracket.Fault} (h : grouped? text = .error fault) :
    text.head? = some '(' ∧ group? text = .error fault := by
  unfold grouped? at h
  split at h
  · next hHead =>
      rcases bind_error h with hGroup | ⟨found, -, h⟩
      · exact ⟨by simpa using hHead, hGroup⟩
      · split at h <;> cases h
  · cases h

/-- An application is a dotted name and a group behind it that takes up the
rest. -/
theorem application?_some (h : application? text = .ok (some (name, argument))) :
    name = trimEnd (text.takeWhile (· != '<')) ∧ (name.splitOn '.').all isName = true ∧
      group? (text.dropWhile (· != '<')) = .ok (some (argument, [])) := by
  unfold application? at h
  dsimp only at h
  split at h
  · next hName =>
      obtain ⟨found, hFound, h⟩ := bind_ok h
      split at h
      · cases h
        exact ⟨rfl, hName, hFound⟩
      · cases h
  · cases h

theorem application?_error {fault : Bracket.Fault} (h : application? text = .error fault) :
    ((trimEnd (text.takeWhile (· != '<'))).splitOn '.').all isName = true ∧
      group? (text.dropWhile (· != '<')) = .error fault := by
  unfold application? at h
  dsimp only at h
  split at h
  · next hName =>
      rcases bind_error h with hGroup | ⟨found, -, h⟩
      · exact ⟨hName, hGroup⟩
      · split at h <;> cases h
  · cases h

/-- An array is a text with the suffix and something else before it. -/
theorem element?_eq_some_iff :
    element? text = some part ↔ text = part ++ ['[', ']'] ∧ trim part ≠ [] := by
  unfold element?
  cases hBefore : before? ['[', ']'] text with
  | none =>
      have hNot : text ≠ part ++ ['[', ']'] := fun h => by
        simp [before?_eq_some_iff.mpr h] at hBefore
      simp [hNot]
  | some element =>
      have hText := before?_eq_some_iff.mp hBefore
      subst hText
      by_cases hEmpty : trim element = []
      · constructor
        · simp [hEmpty]
        · rintro ⟨hSame, hPart⟩
          rw [List.append_cancel_right hSame] at hEmpty
          exact absurd hEmpty hPart
      · simp only [List.isEmpty_iff, hEmpty, if_false, Option.some.injEq, List.append_cancel_right_eq]
        constructor
        · rintro rfl
          exact ⟨rfl, hEmpty⟩
        · exact fun h => h.1

/-- Behind a dotted name a balanced text goes on with a balanced group. -/
theorem exists_angle (hText : Balanced text) (hAngle : '<' ∈ text)
    (hName : ((trimEnd (text.takeWhile (· != '<'))).splitOn '.').all isName = true) :
    ∃ rest, text.dropWhile (· != '<') = '<' :: rest ∧ Balanced ('<' :: rest) := by
  rw [← List.takeWhile_append_dropWhile (p := (· != '<')) (l := text),
    Balanced.plain_append_iff (isPlain_of_dotted hName)] at hText
  cases hRest : text.dropWhile (· != '<') with
  | nil => simpa using List.dropWhile_eq_nil_iff.mp hRest '<' hAngle
  | cons c rest =>
      have hHead := List.head?_dropWhile_not (· != '<') text
      rw [hRest] at hText hHead
      obtain rfl : c = '<' := by simpa using hHead
      exact ⟨rest, rfl, hText⟩

theorem mem_angle_of_group? (h : group? (text.dropWhile (· != '<')) ≠ .ok none) :
    '<' ∈ text := by
  by_contra hNot
  have hAll : text.dropWhile (· != '<') = [] :=
    List.dropWhile_eq_nil_iff.mpr fun c hc => by
      simpa using fun hAngle : c = '<' => hNot (hAngle ▸ hc)
  exact h (by rw [hAll]; rfl)

/-- The parts of a form of a balanced text are balanced. -/
theorem Form.Found.balanced_parts {form : Form} (h : Form.Found text form) (hText : Balanced text)
    (hPart : part ∈ form.parts) : Balanced part := by
  cases h with
  | grouped hGrouped =>
      obtain ⟨hHead, hGroup⟩ := grouped?_some hGrouped
      obtain ⟨rest, rfl⟩ := List.head?_eq_some_iff.mp hHead
      rw [List.mem_singleton.mp hPart]
      exact (hText.of_group?_some rfl hGroup).1
  | readonlyOf _ hWord =>
      rw [List.mem_singleton.mp hPart]
      exact hText.afterWord? rfl hWord
  | keyOf _ _ hWord =>
      rw [List.mem_singleton.mp hPart]
      exact hText.afterWord? rfl hWord
  | array _ _ _ hElement =>
      rw [(element?_eq_some_iff.mp hElement).1] at hText
      rw [List.mem_singleton.mp hPart]
      exact hText.of_append_squares
  | applied _ _ _ _ hApplied =>
      obtain ⟨rfl, hName, hGroup⟩ := application?_some hApplied
      have hAngle : '<' ∈ text := mem_angle_of_group? (by simp [hGroup])
      obtain ⟨rest, hRest, hBalanced⟩ := exists_angle hText hAngle hName
      rw [hRest] at hGroup
      rw [List.mem_singleton.mp hPart]
      exact (hBalanced.of_group?_some rfl hGroup).1
  | plain => cases hPart

/-- No walk made in reading a balanced text fails, however deep the part it
is in. -/
theorem Reader.Walks.succeeds {reader : Reader} {walk : Walk} (h : reader.Walks text walk)
    (hText : Balanced text) : walk.Succeeds := by
  induction h with
  | arrow => exact exists_breakTop _ hText.trim
  | members => exact exists_splitTop '|' hText.trim
  | member hPieces hPiece _ ih => exact ih (balanced_of_mem_memberTexts hPieces hPiece)
  | @group text hRound =>
      obtain ⟨rest, hTrim⟩ := List.head?_eq_some_iff.mp hRound
      have hBalanced := hText.trim
      rw [hTrim] at hBalanced
      simpa [Walk.Succeeds, hTrim] using exists_group? hBalanced rfl
  | argument hAngle hName =>
      obtain ⟨rest, hRest, hBalanced⟩ := exists_angle hText.trim hAngle hName
      simpa [Walk.Succeeds, hRest] using exists_group? hBalanced rfl
  | part hForm hPart _ ih =>
      exact ih ((Form.of_eq_ok_iff.mp hForm).balanced_parts hText.trim hPart)

/-- One of the walks that a reader makes fails. -/
def Reader.Fails (reader : Reader) (text : List Char) : Prop :=
  Walk.SomeFails (reader.Walks text)

/-- A fault found in looking for an arrow is that of a walk over the text as
a whole. -/
theorem fails_of_hasArrow {fault : Bracket.Fault} (h : hasArrow (trim text) = .error fault) :
    Reader.type.Fails text := by
  rcases bind_error h with hSearch | ⟨found, -, hNone⟩
  · exact ⟨_, .arrow text, by simp [Walk.Succeeds, hSearch]⟩
  · cases hNone

theorem fails_of_memberTexts {fault : Bracket.Fault} (h : memberTexts (trim text) = .error fault) :
    Reader.type.Fails text := by
  rcases bind_error h with hSplit | ⟨cut, -, hNone⟩
  · exact ⟨_, .members text, by simp [Walk.Succeeds, hSplit]⟩
  · cases hNone

/-- When no form is found, a walk over a group of the text met a fault. -/
theorem fails_of_form {fault : Bracket.Fault} (h : Form.of (trim text) = .error fault) :
    Reader.member.Fails text := by
  cases hGrouped : grouped? (trim text) with
  | error other =>
      obtain ⟨hHead, hGroup⟩ := grouped?_error hGrouped
      exact ⟨_, .group hHead, by simp [Walk.Succeeds, hGroup]⟩
  | ok found =>
      cases hApplied : application? (trim text) with
      | error other =>
          obtain ⟨hName, hGroup⟩ := application?_error hApplied
          have hAngle : '<' ∈ trim text := mem_angle_of_group? (by simp [hGroup])
          exact ⟨_, .argument hAngle hName, by simp [Walk.Succeeds, hGroup]⟩
      | ok pair =>
          obtain ⟨form, hForm⟩ := Form.exists_of hGrouped hApplied
          rw [h] at hForm
          cases hForm

theorem ofMembers_error {members : List TypeExpr} {fault : Fault}
    (h : ofMembers members = .error fault) : fault = .missing := by
  unfold ofMembers at h
  split at h <;> cases h
  rfl

/-- A walk that fails in a part of the form is one made in reading the
whole. -/
theorem Reader.Fails.of_part {reader : Reader} {form : Form} (h : reader.Fails part)
    (hForm : Form.of (trim text) = .ok form) (hPart : part ∈ form.parts) :
    Reader.member.Fails text := by
  obtain ⟨walk, hWalk, hFails⟩ := h
  exact ⟨walk, .part hForm hPart hWalk, hFails⟩

/-- What a reader makes of a text, given the type parameters in scope. -/
def Reader.read (generics : List String) : Reader → List Char → Except Fault TypeExpr
  | .type => parse generics
  | .member => parseMember generics

/-- A part of a form that is refused makes its own reader fail. -/
theorem exists_reader_of_readForm {generics : List String} {form : Form} {flaw : Flaw}
    (h : readForm generics text form = .error (.unbalanced flaw)) :
    ∃ reader part, part ∈ form.parts ∧
      Reader.read generics reader part = .error (.unbalanced flaw) := by
  cases form with
  | grouped inside => exact ⟨.type, inside, List.mem_cons_self, h⟩
  | readonlyOf rest => exact ⟨.member, rest, List.mem_cons_self, h⟩
  | keyOf target => exact ⟨.member, target, List.mem_cons_self, map_error h⟩
  | array element => exact ⟨.member, element, List.mem_cons_self, map_error h⟩
  | applied name argument =>
      refine ⟨.type, argument, List.mem_cons_self, ?_⟩
      simp only [readForm] at h
      split at h
      · exact map_error h
      · split at h
        · exact map_error h
        · cases h
  | plain => cases h

/-- A text is refused for its brackets only if a walk made in reading it
fails. -/
theorem Reader.fails_of_unbalanced {generics : List String} {flaw : Flaw} {reader : Reader}
    (h : reader.read generics text = .error (.unbalanced flaw)) : reader.Fails text := by
  have hBoth := @reading_induction
    (fun text => Reader.type.read generics text = .error (.unbalanced flaw) → Reader.type.Fails text)
    (fun text => Reader.member.read generics text = .error (.unbalanced flaw) →
      Reader.member.Fails text) (fun text ih h => ?_) (fun text ih h => ?_) text
  · cases reader with
    | type => exact hBoth.1 h
    | member => exact hBoth.2 h
  · rw [Reader.read, parse_eq] at h
    split at h
    · cases h
    · cases hArrow : hasArrow (trim text) with
      | error fault => exact fails_of_hasArrow hArrow
      | ok arrow =>
          cases hPieces : memberTexts (trim text) with
          | error fault => exact fails_of_memberTexts hPieces
          | ok pieces =>
              cases arrow with
              | true => simp [hArrow] at h
              | false =>
                  simp only [hArrow, hPieces] at h
                  rcases bind_error h with hMember | ⟨members, -, hMembers⟩
                  · obtain ⟨piece, hPiece, hFault⟩ := mapM_error hMember
                    obtain ⟨walk, hWalk, hFails⟩ := ih pieces hPieces piece hPiece hFault
                    exact ⟨walk, .member hPieces hPiece hWalk, hFails⟩
                  · cases ofMembers_error hMembers
  · rw [Reader.read, parseMember_eq] at h
    cases hForm : Form.of (trim text) with
    | error fault => exact fails_of_form hForm
    | ok form =>
        simp only [hForm] at h
        obtain ⟨other, part, hPart, hFault⟩ := exists_reader_of_readForm h
        obtain ⟨ihType, ihMember⟩ := ih form hForm part hPart
        cases other with
        | type => exact (ihType hFault).of_part hForm hPart
        | member => exact (ihMember hFault).of_part hForm hPart

end TypeExpr

end ScriptBindings
