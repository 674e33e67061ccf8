import ScriptBindings.Proofs.Bracket.Shape

/-! Balanced texts: every literal is closed and every bracket by its own
kind. They stay balanced wherever they are put, except that a final `=` must
not meet a `>`. Conversely what is left of a balanced text is balanced when
characters that are no brackets, quotes or `=` are cut off at either end. -/
namespace ScriptBindings.Bracket

open Outcomes Shape

/-- A walk over the whole text finds no fault. -/
def Balanced (text : List Char) : Prop :=
  check text = .ok ()

/-- Characters that change nothing outside literals, and after which `>` is
a bracket. -/
def isPlain (c : Char) : Bool :=
  (opening? c).isNone && (closing? c).isNone && !isQuote c && c != '='

/-- A plain character is one that no branch of the scanner tells from a
letter. -/
theorem isPlain_iff {c : Char} :
    isPlain c = true ↔
      opening? c = none ∧ closing? c = none ∧ isQuote c = false ∧ c ≠ '=' := by
  simp [isPlain, and_assoc]

/-- The first text does not end with `=`, or the second begins with a plain
character. So no arrow comes about where they meet. -/
def MeetsPlainly (first second : List Char) : Prop :=
  first.getLast? = some '=' → ∀ c, second.head? = some c → isPlain c = true

namespace MeetsPlainly

variable {first second rest : List Char}

/-- Only an equals sign can join with what follows it, to an arrow. -/
theorem of_last (h : first.getLast? ≠ some '=') : MeetsPlainly first second :=
  fun hLast => absurd hLast h

/-- Whether two texts meet plainly is told by the first character of the
second. -/
theorem of_append (h : MeetsPlainly first (second ++ rest)) : MeetsPlainly first second :=
  fun hLast c hHead => h hLast c (by rw [List.head?_append, hHead, Option.some_or])

/-- A text that begins with a plain character meets every other plainly. -/
theorem plain (hNil : second ≠ []) (hPlain : ∀ c ∈ second, isPlain c = true) :
    MeetsPlainly first (second ++ rest) := by
  intro _ c hHead
  rw [List.head?_append_of_ne_nil _ hNil] at hHead
  exact hPlain c (List.mem_of_mem_head? hHead)

end MeetsPlainly

/-- An opening bracket is no quote and no `=`. -/
theorem quote_arrow_of_opening {c : Char} {kind : Bracket} (h : opening? c = some kind) :
    isQuote c = false ∧ (c == '=') = false := by
  unfold opening? at h
  split at h <;> first | decide | cases h

/-- The cases of a step exclude each other: what closes a bracket neither
opens one, nor quotes, nor starts an arrow. -/
theorem quote_arrow_of_closing {c : Char} {kind : Bracket} (h : closing? c = some kind) :
    opening? c = none ∧ isQuote c = false ∧ (c == '=') = false := by
  unfold closing? at h
  split at h <;> first | decide | cases h

instance : DecidablePred Balanced := fun text =>
  inferInstanceAs (Decidable (check text = .ok ()))

/-- Balance as a run: from the top back to the top, where an equals sign may
stand last. -/
theorem balanced_iff {text : List Char} :
    Balanced text ↔ ∃ arrow, start.run text = some (code [] arrow) := by
  constructor
  · intro h
    obtain ⟨last, hRun, hFinish⟩ := bind_ok h
    have hTop := Shape.atTop_iff.mp (last.shape_atTop.trans (Cursor.finish_ok_iff.mp hFinish))
    exact ⟨last.shape.arrow, hTop ▸ Cursor.run_ok hRun⟩
  · rintro ⟨arrow, h⟩
    obtain ⟨last, hRun, hShape⟩ := Cursor.run_of_shape (show Cursor.start.shape.run text = _ from h)
    have hTop : last.atTop = true := by rw [← last.shape_atTop, hShape]; rfl
    simp only [Balanced, check, hRun, ok_bind]
    exact Cursor.finish_ok_iff.mpr hTop

namespace Shape

/-- A plain character changes nothing but that an equals sign before it is
forgotten. -/
theorem step_plain {kinds : List Bracket} {arrow : Bool} {c : Char} (h : isPlain c = true) :
    (code kinds arrow).step c = some (code kinds false) := by
  obtain ⟨hOpening, hClosing, hQuote, hArrow⟩ := isPlain_iff.mp h
  have hKinds : stepKinds arrow kinds c = some kinds :=
    stepKinds_eq_some_iff.mpr (Or.inr (Or.inl ⟨hOpening, by simp [closes?, hClosing], rfl⟩))
  simp [step, code, hQuote, hKinds, hArrow]

/-- An opening bracket is stacked on those that are open, whatever they
are. -/
theorem step_opening (kinds : List Bracket) (arrow : Bool) {c : Char} {kind : Bracket}
    (h : opening? c = some kind) :
    (code kinds arrow).step c = some (code (kind :: kinds) false) := by
  obtain ⟨hQuote, hArrow⟩ := quote_arrow_of_opening h
  have hKinds : stepKinds arrow kinds c = some (kind :: kinds) :=
    stepKinds_eq_some_iff.mpr (Or.inl ⟨kind, h, rfl⟩)
  simp [step, code, hQuote, hKinds, hArrow]

/-- A closing bracket closes its own kind, unless it is the `>` of an
arrow. -/
theorem step_closing (kinds : List Bracket) {arrow : Bool} {c : Char} {kind : Bracket}
    (h : closing? c = some kind) (hKind : kind = .angle → arrow = false) :
    (code (kind :: kinds) arrow).step c = some (code kinds false) := by
  obtain ⟨hOpening, hQuote, hArrow⟩ := quote_arrow_of_closing h
  have hCloses : closes? arrow c = some kind := by
    unfold closes?
    split
    · next hAngle =>
        simp only [Bool.and_eq_true, beq_iff_eq] at hAngle
        rw [Cursor.closing?_eq_angle_iff.mpr hAngle.2] at h
        simp [hKind (Option.some.inj h).symm] at hAngle
    · exact h
  have hKinds : stepKinds arrow (kind :: kinds) c = some kinds :=
    stepKinds_eq_some_iff.mpr (Or.inr (Or.inr ⟨kind, hOpening, hCloses, rfl⟩))
  simp [step, code, hQuote, hKinds, hArrow]

/-- Only for a `>` it matters whether a `=` stands before it. -/
theorem stepKinds_eq_false {arrow : Bool} {c : Char} (h : arrow = true → c ≠ '>')
    (kinds : List Bracket) : stepKinds arrow kinds c = stepKinds false kinds c := by
  have hCloses : closes? arrow c = closes? false c := by
    cases arrow with
    | false => rfl
    | true => simp [closes?, h rfl]
  unfold stepKinds
  rw [hCloses]

theorem run_plain {kinds : List Bracket} {text : List Char} (h : ∀ c ∈ text, isPlain c = true) :
    (code kinds false).run text = some (code kinds false) := by
  induction text with
  | nil => rfl
  | cons c rest ih =>
      simp only [List.forall_mem_cons] at h
      simp [run, step_plain h.1, ih h.2]

/-- Outside literals the last character tells whether an arrow may
follow. -/
theorem run_arrow {s last : Shape} {text : List Char} {c : Char}
    (h : s.run (text ++ [c]) = some last) (hCode : last.literal = none) :
    last.arrow = (c == '=') := by
  rw [run_append] at h
  obtain ⟨before, -, hStep⟩ := Option.bind_eq_some_iff.mp h
  rw [run_singleton] at hStep
  rcases step_eq_some_iff.mp hStep with ⟨quote, escaped, hLiteral, rfl⟩ | ⟨-, -, rfl⟩ |
    ⟨-, -, left, -, rfl⟩
  · unfold stepLiteral at hCode ⊢
    split_ifs at hCode ⊢ <;> simp_all
  · simp at hCode
  · rfl

/-- A literal that the walk is in was begun by a quote. -/
def Quoted (s : Shape) : Prop :=
  ∀ quote escaped, s.literal = some (quote, escaped) → isQuote quote = true

/-- Inside a literal the quote that opened it is a quote, and a step keeps
that. -/
theorem Quoted.step {s next : Shape} {c : Char} (h : s.Quoted) (hStep : s.step c = some next) :
    next.Quoted := by
  intro quote escaped hNext
  rcases step_eq_some_iff.mp hStep with ⟨q, e, hLiteral, rfl⟩ | ⟨-, hQuote, rfl⟩ |
    ⟨-, -, left, -, rfl⟩
  · have hSame : quote = q := by
      unfold stepLiteral at hNext
      split_ifs at hNext <;> simp_all
    exact hSame ▸ h q e hLiteral
  · simp_all
  · simp [code] at hNext

/-- So every shape that a run reaches from a sound one is sound. -/
theorem Quoted.run {s last : Shape} {text : List Char} (h : s.Quoted)
    (hRun : s.run text = some last) : last.Quoted := by
  induction text generalizing s with
  | nil =>
      cases hRun
      exact h
  | cons c rest ih =>
      obtain ⟨next, hStep, hRest⟩ := Option.bind_eq_some_iff.mp hRun
      exact ih (h.step hStep) hRest

theorem quoted_start : start.Quoted := by
  simp [Quoted, start, code]

/-- Without a quote in it, no text leads out of a literal. -/
theorem literal_eq_none_of_run {s last : Shape} {text : List Char} (hQuoted : s.Quoted)
    (hText : ∀ c ∈ text, isQuote c = false) (hRun : s.run text = some last)
    (hLast : last.literal = none) : s.literal = none := by
  induction text generalizing s with
  | nil =>
      cases hRun
      exact hLast
  | cons c rest ih =>
      obtain ⟨next, hStep, hRest⟩ := Option.bind_eq_some_iff.mp hRun
      simp only [List.forall_mem_cons] at hText
      have hNext := ih (hQuoted.step hStep) hText.2 hRest
      rcases step_eq_some_iff.mp hStep with ⟨quote, escaped, hLiteral, rfl⟩ | ⟨hNone, -⟩ |
        ⟨hNone, -⟩
      · have hDiffers : c ≠ quote := by
          rintro rfl
          rw [hQuoted c escaped hLiteral] at hText
          simp at hText
        unfold stepLiteral at hNext
        split_ifs at hNext <;> simp_all
      · exact hNone
      · exact hNone

end Shape

namespace Balanced

variable {text first second inside : List Char}

theorem nil : Balanced [] := rfl

/-- A balanced text is read to its end by the cursor, which stands at the
top there. -/
theorem exists_run (h : Balanced text) :
    ∃ last arrow, Cursor.start.run text = .ok last ∧ last.shape = code [] arrow := by
  obtain ⟨arrow, hRun⟩ := balanced_iff.mp h
  obtain ⟨last, hLast, hShape⟩ := Cursor.run_of_shape
    (show Cursor.start.shape.run text = _ from hRun)
  exact ⟨last, arrow, hLast, hShape⟩

/-- A balanced text is walked alike wherever it stands, and leaves open what
was open. -/
theorem run (h : Balanced text) (kinds : List Bracket) :
    (code kinds false).run text = some (code kinds (text.getLast? == some '=')) := by
  obtain ⟨arrow, hRun⟩ := balanced_iff.mp h
  have hArrow : arrow = (text.getLast? == some '=') := by
    rcases List.eq_nil_or_concat text with rfl | ⟨body, c, rfl⟩
    · simpa [Shape.run, start, code] using hRun.symm
    · rw [List.concat_eq_append] at hRun ⊢
      have hLast : (code [] arrow).arrow = (c == '=') := run_arrow hRun rfl
      simpa [code] using hLast
  simpa [start, hArrow] using run_under kinds hRun

/-- Behind a balanced text the walk goes on as from the start. -/
theorem append_iff (h : Balanced first) (hLast : first.getLast? ≠ some '=') :
    Balanced (first ++ second) ↔ Balanced second := by
  have hRun : start.run first = some start := by
    simpa [start, beq_eq_false_iff_ne.mpr hLast] using h.run []
  simp only [balanced_iff, run_append, hRun, Option.bind_some]

/-- What follows is walked as from the start, too, if a plain character
keeps a `=` off it. -/
theorem append_iff_of_meets (h : Balanced first) (hMeets : MeetsPlainly first second) :
    Balanced (first ++ second) ↔ Balanced second := by
  cases second with
  | nil => simp [h, nil]
  | cons c rest =>
      by_cases hLast : first.getLast? = some '='
      · have hRun : start.run first = some (code [] true) := by simpa [start, hLast] using h.run []
        have hPlain := hMeets hLast c rfl
        simp only [balanced_iff, run_append, hRun, Option.bind_some]
        rw [start, Shape.run, Shape.run, step_plain hPlain, step_plain hPlain]
      · exact h.append_iff hLast

/-- Balanced texts may be put one behind the other unless an equals sign at
the seam would make an arrow. -/
theorem append (hFirst : Balanced first) (hSecond : Balanced second)
    (hLast : first.getLast? ≠ some '=') : Balanced (first ++ second) :=
  (hFirst.append_iff hLast).mpr hSecond

/-- Text without brackets, quotes and equals signs is balanced. -/
theorem of_plain (h : ∀ c ∈ text, isPlain c = true) : Balanced text :=
  balanced_iff.mpr ⟨false, run_plain h⟩

theorem getLast?_plain (h : ∀ c ∈ text, isPlain c = true) : text.getLast? ≠ some '=' := by
  intro hLast
  have hPlain := h '=' (List.mem_of_getLast? hLast)
  simp [isPlain] at hPlain

/-- Plain characters in front of a text do not matter. This is how names and
keywords are taken off before a type is read. -/
theorem plain_append_iff (h : ∀ c ∈ first, isPlain c = true) :
    Balanced (first ++ second) ↔ Balanced second :=
  (of_plain h).append_iff (getLast?_plain h)

/-- Before a balanced text ends without quotes, the walk stands outside
literals. -/
theorem exists_code (h : Balanced (first ++ second)) (hSecond : ∀ c ∈ second, isQuote c = false) :
    ∃ kinds arrow last, start.run first = some (code kinds arrow) ∧
      (code kinds arrow).run second = some (code [] last) := by
  obtain ⟨last, hRun⟩ := balanced_iff.mp h
  rw [run_append] at hRun
  obtain ⟨middle, hFirst, hRest⟩ := Option.bind_eq_some_iff.mp hRun
  have hCode : middle.literal = none :=
    literal_eq_none_of_run (quoted_start.run hFirst) hSecond hRest rfl
  have hMiddle : middle = code middle.kinds middle.arrow := eq_code rfl hCode
  exact ⟨middle.kinds, middle.arrow, last, hMiddle ▸ hFirst, hMiddle ▸ hRest⟩

/-- Plain characters behind a text do not matter, as they leave the brackets
as they are and can complete no arrow. -/
theorem append_plain_iff (h : ∀ c ∈ second, isPlain c = true) :
    Balanced (first ++ second) ↔ Balanced first := by
  cases second with
  | nil => simp
  | cons c rest =>
      have hQuotes : ∀ d ∈ c :: rest, isQuote d = false :=
        fun d hd => (isPlain_iff.mp (h d hd)).2.2.1
      simp only [List.forall_mem_cons] at h
      have hTail (kinds : List Bracket) (arrow : Bool) :
          (code kinds arrow).run (c :: rest) = some (code kinds false) := by
        simp [Shape.run, step_plain h.1, run_plain h.2]
      constructor
      · intro hBalanced
        obtain ⟨kinds, arrow, last, hFirst, hRest⟩ := hBalanced.exists_code hQuotes
        rw [hTail] at hRest
        simp only [Option.some.injEq, code, Shape.mk.injEq] at hRest
        exact balanced_iff.mpr ⟨arrow, hRest.1 ▸ hFirst⟩
      · intro hBalanced
        obtain ⟨arrow, hFirst⟩ := balanced_iff.mp hBalanced
        exact balanced_iff.mpr ⟨false, by simp [run_append, hFirst, hTail]⟩

/-- The suffix of an array type opens a bracket and closes it at once, at
every depth. -/
theorem run_squares (kinds : List Bracket) (arrow : Bool) :
    (code kinds arrow).run ['[', ']'] = some (code kinds false) := by
  have hOpening := step_opening kinds arrow (show opening? '[' = some .square from rfl)
  have hClosing := step_closing kinds (show closing? ']' = some .square from rfl)
    (by simp : Bracket.square = .angle → false = false)
  simp only [Shape.run, hOpening, hClosing, Option.bind_some]

/-- What stands before a final `[]` is balanced. -/
theorem of_append_squares (h : Balanced (first ++ ['[', ']'])) : Balanced first := by
  obtain ⟨kinds, arrow, last, hFirst, hRest⟩ := h.exists_code (by simp [isQuote])
  rw [run_squares] at hRest
  simp only [Option.some.injEq, code, Shape.mk.injEq] at hRest
  exact balanced_iff.mpr ⟨arrow, hRest.1 ▸ hFirst⟩

/-- Appending the suffix keeps balance even behind an equals sign, since no
arrow ends in a bracket. -/
theorem append_squares (h : Balanced first) : Balanced (first ++ ['[', ']']) := by
  obtain ⟨arrow, hFirst⟩ := balanced_iff.mp h
  exact balanced_iff.mpr ⟨false, by rw [run_append, hFirst, Option.bind_some, run_squares]⟩

/-- A balanced text in brackets is balanced, if its last `=` makes no arrow
of them. -/
theorem group {opener closer : Char} {kind : Bracket} (h : Balanced inside)
    (hOpener : opening? opener = some kind) (hCloser : closing? closer = some kind)
    (hLast : kind = .angle → inside.getLast? ≠ some '=') :
    Balanced (opener :: (inside ++ [closer])) := by
  have hClosing := step_closing [] hCloser (fun hKind => beq_eq_false_iff_ne.mpr (hLast hKind))
  refine balanced_iff.mpr ⟨false, ?_⟩
  simp [Shape.run, start, step_opening _ _ hOpener, run_append, h.run, hClosing]

end Balanced

end ScriptBindings.Bracket
