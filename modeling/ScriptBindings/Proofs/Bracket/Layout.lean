import ScriptBindings.Proofs.Bracket.Outside
import ScriptBindings.Proofs.Text.Layout

/-! Brackets in texts that are laid out differently. A run of blanks leaves
a walk in the shape that a single space leaves it in, also in a literal. So
a text is balanced in every layout, and cuts outside all brackets find the
same pieces but for their blanks. -/
namespace ScriptBindings.Bracket

open Text Outcomes Shape

variable {first second key inside : List Char} {separator c : Char}

namespace Shape

theorem isBlank_space : isBlank ' ' = true := rfl

theorem isQuote_of_isBlank (h : isBlank c = true) : isQuote c = false :=
  (isPlain_iff.mp (isPlain_of_isBlank h)).2.2.1

/-- In a literal a blank only ends an escape. So one blank there is as good
as several. -/
theorem stepLiteral_blank {s : Shape} {quote : Char} {escaped : Bool} (hQuote : isQuote quote = true)
    (h : isBlank c = true) :
    s.stepLiteral quote escaped c = if escaped then { s with literal := some (quote, false) } else s := by
  have hSlash : c ≠ '\\' := by
    rintro rfl
    cases h
  have hDiffers : c ≠ quote := by
    rintro rfl
    rw [isQuote_of_isBlank h] at hQuote
    cases hQuote
  simp [stepLiteral, hSlash, hDiffers]

/-- All blanks are walked alike. -/
theorem step_blank {s : Shape} (hQuoted : s.Quoted) (h : isBlank c = true) :
    s.step c = s.step ' ' := by
  cases hLiteral : s.literal with
  | none =>
      rw [eq_code rfl hLiteral, step_plain (isPlain_of_isBlank h), step_plain rfl]
  | some l =>
      have hQuote := hQuoted l.1 l.2 hLiteral
      simp only [step, hLiteral, stepLiteral_blank hQuote h, stepLiteral_blank hQuote isBlank_space]

/-- Behind a blank another one changes nothing. -/
theorem step_blank_blank {s next : Shape} (hQuoted : s.Quoted) (h : s.step ' ' = some next) :
    next.step ' ' = some next := by
  cases hLiteral : s.literal with
  | none =>
      rw [eq_code rfl hLiteral, step_plain rfl] at h
      rw [← Option.some.inj h, step_plain rfl]
  | some l =>
      obtain ⟨quote, escaped⟩ := l
      have hQuote := hQuoted quote escaped hLiteral
      simp only [step, hLiteral, stepLiteral_blank hQuote isBlank_space, Option.some.injEq] at h
      have hNext : next.literal = some (quote, false) := by
        rw [← h]
        cases escaped with
        | true => rfl
        | false => exact hLiteral
      simp [step, hNext, stepLiteral_blank hQuote isBlank_space]

/-- A run of blanks moves the cursor like one blank, inside of literals as
well as outside. -/
theorem run_blanks {s : Shape} {blanks : List Char} (hQuoted : s.Quoted) (hNil : blanks ≠ [])
    (h : ∀ c ∈ blanks, isBlank c = true) : s.run blanks = s.step ' ' := by
  induction blanks generalizing s with
  | nil => exact absurd rfl hNil
  | cons c rest ih =>
      obtain ⟨hChar, hRest⟩ := List.forall_mem_cons.mp h
      rw [run, step_blank hQuoted hChar]
      cases hStep : s.step ' ' with
      | none => rfl
      | some next =>
          rw [Option.bind_some]
          cases rest with
          | nil => rfl
          | cons d later =>
              rw [ih (hQuoted.step hStep) (List.cons_ne_nil d later) hRest,
                step_blank_blank hQuoted hStep]

/-- A walk ends alike over all layouts of a text. -/
theorem run_relaid {s : Shape} (h : Relaid first second) (hQuoted : s.Quoted) :
    s.run first = s.run second := by
  induction h generalizing s with
  | nil => rfl
  | @char c first second _ _ ih =>
      rw [run, run]
      cases hStep : s.step c with
      | none => rfl
      | some next => exact ih (hQuoted.step hStep)
  | blanks hNil hOtherNil hBlank hOther _ ih =>
      rw [run_append, run_append, run_blanks hQuoted hNil hBlank,
        run_blanks hQuoted hOtherNil hOther]
      cases hStep : s.step ' ' with
      | none => rfl
      | some next => exact ih (hQuoted.step hStep)

end Shape

/-- Balance does not depend on how a text is laid out. -/
theorem Balanced.relaid (h : Balanced first) (hRelaid : Relaid first second) : Balanced second := by
  rw [balanced_iff, ← run_relaid hRelaid quoted_start]
  exact balanced_iff.mp h

/-- Nor does the absence of a keyword outside of brackets, as long as the
keyword has no blanks in it. -/
theorem Lacks.relaid (h : Lacks key first) (hRelaid : Relaid first second) (hNil : key ≠ [])
    (hKey : ∀ c ∈ key, isBlank c = false) : Lacks key second := by
  rintro before after rfl hBefore
  obtain ⟨otherBefore, otherAfter, hText, hFront, -⟩ :=
    hRelaid.symm.exists_split_append hNil hKey
  exact h otherBefore otherAfter hText (hBefore.relaid hFront)

theorem Whole.relaid (h : Whole separator first) (hRelaid : Relaid first second)
    (hSeparator : isBlank separator = false) : Whole separator second := by
  rw [whole_iff] at h ⊢
  exact ⟨h.1.relaid hRelaid, h.2.relaid hRelaid (List.cons_ne_nil _ _) (by simpa using hSeparator)⟩

/-- The pieces between separators are laid out differently one by one. -/
theorem exists_relaid_intercalate {pieces : List (List Char)} (hSeparator : isBlank separator = false)
    (h : Relaid ([separator].intercalate pieces) second) (hNil : pieces ≠ []) :
    ∃ others, second = [separator].intercalate others ∧ List.Forall₂ Relaid pieces others := by
  induction pieces generalizing second with
  | nil => exact absurd rfl hNil
  | cons piece rest ih =>
      cases rest with
      | nil =>
          rw [List.intercalate_singleton] at h
          exact ⟨[second], (List.intercalate_singleton).symm, .cons h .nil⟩
      | cons next later =>
          rw [List.intercalate_cons_cons, List.append_assoc] at h
          obtain ⟨other, behind, rfl, hPiece, hRest⟩ := h.exists_split hSeparator rfl
          obtain ⟨others, rfl, hOthers⟩ := ih hRest (List.cons_ne_nil next later)
          refine ⟨other :: others, ?_, .cons hPiece hOthers⟩
          obtain ⟨head, tail, rfl⟩ : ∃ head tail, others = head :: tail := by
            cases hOthers with
            | cons => exact ⟨_, _, rfl⟩
          rw [List.intercalate_cons_cons]
          simp

/-- A text in another layout is cut into the same pieces but for their
layout. -/
theorem splitTop_relaid {pieces : List (List Char)} (hPlain : isPlain separator = true)
    (hSeparator : isBlank separator = false) (hRelaid : Relaid first second)
    (h : splitTop separator first = .ok pieces) :
    ∃ others, splitTop separator second = .ok others ∧ List.Forall₂ Relaid pieces others := by
  obtain ⟨hNil, rfl, hWhole⟩ := (splitTop_eq_ok_iff hPlain).mp h
  obtain ⟨others, rfl, hOthers⟩ := exists_relaid_intercalate hSeparator hRelaid hNil
  refine ⟨others, (splitTop_eq_ok_iff hPlain).mpr ⟨?_, rfl, ?_⟩, hOthers⟩
  · rintro rfl
    cases hOthers
    exact hNil rfl
  · clear hRelaid h hNil
    induction hOthers with
    | nil => simp
    | cons hPiece _ ih =>
        obtain ⟨hHead, hTail⟩ := List.forall_mem_cons.mp hWhole
        exact List.forall_mem_cons.mpr ⟨hHead.relaid hPiece hSeparator, ih hTail⟩

/-- Whether a text is a function type does not depend on its layout. -/
theorem hasArrow_relaid {found : Bool} (hRelaid : Relaid first second)
    (h : hasArrow first = .ok found) : hasArrow second = .ok found := by
  have hKey : ∀ c ∈ arrow, isBlank c = false := by simp [arrow, isBlank]
  cases found with
  | true =>
      obtain ⟨before, after, rfl, hBefore⟩ := hasArrow_eq_true_iff.mp h
      obtain ⟨otherBefore, otherAfter, rfl, hFront, -⟩ :=
        hRelaid.exists_split_append (List.cons_ne_nil _ _) hKey
      exact hasArrow_eq_true_iff.mpr ⟨otherBefore, otherAfter, rfl, hBefore.relaid hFront⟩
  | false =>
      obtain ⟨hBalanced, hLacks⟩ := hasArrow_eq_false_iff.mp h
      exact hasArrow_eq_false_iff.mpr
        ⟨hBalanced.relaid hRelaid, hLacks.relaid hRelaid (List.cons_ne_nil _ _) hKey⟩

end ScriptBindings.Bracket
