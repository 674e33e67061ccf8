import ScriptBindings.Proofs.Bracket.Grouping
import ScriptBindings.Proofs.Bracket.Layout
import ScriptBindings.Proofs.Bracket.Nesting
import ScriptBindings.Text.Measure

/-! Where a text that is not balanced is at fault. The walk reports the
quote of a literal that is never closed, the first closing bracket behind
which nothing can balance the text, or the innermost bracket that is still
open at the end. Cutting a text at a separator fails as the walk does, and
so does the search for an arrow where there is none to find. -/
namespace ScriptBindings.Bracket

open Text Outcomes Shape

variable {text word rest front more : List Char} {s last : Shape} {k next : Cursor}
  {opened outer : List (Bracket × Nat)} {fault : Fault} {quote c : Char}

/-! ### The walk with its offsets -/

namespace Cursor

/-- A run over two texts is the run over the first and then, from where it
ended, over the second. -/
theorem run_append (k : Cursor) (first second : List Char) :
    k.run (first ++ second) = k.run first >>= (·.run second) := by
  induction first generalizing k with
  | nil => rfl
  | cons c rest ih =>
      simp only [List.cons_append, run]
      cases k.step c with
      | error fault => rfl
      | ok next => exact ih next

/-- The cursor counts bytes, not characters, since that is what a fault
reports. -/
theorem run_offset {last : Cursor} (h : k.run text = .ok last) :
    last.offset = k.offset + byteCount text := by
  induction text generalizing k with
  | nil =>
      cases h
      rfl
  | cons c rest ih =>
      obtain ⟨next, hStep, hRest⟩ := bind_ok h
      rw [ih hRest, step_offset hStep, byteCount_cons, Nat.add_assoc]

/-- From the start of a text the offset is the number of bytes read. -/
theorem offset_of_run (h : start.run text = .ok k) : k.offset = byteCount text := by
  rw [run_offset h]
  exact Nat.zero_add _

/-- A walk that fails does so at the first character that it cannot pass. -/
theorem run_error (h : k.run text = .error fault) :
    ∃ front c rest middle, text = front ++ c :: rest ∧ k.run front = .ok middle ∧
      middle.step c = .error fault := by
  induction text generalizing k with
  | nil => cases h
  | cons c rest ih =>
      rcases bind_error h with hStep | ⟨next, hStep, hRest⟩
      · exact ⟨[], c, rest, k, rfl, rfl, hStep⟩
      · obtain ⟨front, d, behind, middle, rfl, hFront, hFault⟩ := ih hRest
        exact ⟨c :: front, d, behind, middle, rfl, by simp [run, hStep, hFront], hFault⟩

/-- A character outside literals opens a bracket, is none, closes the
innermost bracket, or is at fault. -/
theorem stepBrackets_cases (k : Cursor) (c : Char) :
    (∃ kind, opening? c = some kind ∧
      k.stepBrackets c = .ok ((kind, k.offset) :: k.openBrackets)) ∨
    k.stepBrackets c = .ok k.openBrackets ∨
    (∃ kind openedAt outer, closes? k.shape.arrow c = some kind ∧
      k.openBrackets = (kind, openedAt) :: outer ∧ k.stepBrackets c = .ok outer) ∨
    ∃ kind flaw, closing? c = some kind ∧ k.stepBrackets c = .error ⟨k.offset, flaw⟩ := by
  unfold stepBrackets
  cases opening? c with
  | some kind => exact Or.inl ⟨kind, rfl, rfl⟩
  | none =>
      cases hClosing : closing? c with
      | none => exact Or.inr (Or.inl rfl)
      | some kind =>
          by_cases hHead : (kind == .angle && k.previous == '=') = true
          · exact Or.inr (Or.inl (if_pos hHead))
          · have hCloses : closes? k.shape.arrow c = some kind := by
              have hNoArrow : ¬(k.shape.arrow && c == '>') = true := by
                intro hArrow
                simp only [Bool.and_eq_true, beq_iff_eq] at hArrow
                obtain ⟨hEqual, rfl⟩ := hArrow
                cases hClosing
                exact hHead (by simpa [shape] using hEqual)
              rw [closes?, if_neg hNoArrow, hClosing]
            simp only [if_neg hHead]
            cases hOpen : k.openBrackets with
            | nil => exact Or.inr (Or.inr (Or.inr ⟨kind, .unexpected c, rfl, rfl⟩))
            | cons innermost outer =>
                obtain ⟨opened, openedAt⟩ := innermost
                by_cases hSame : opened = kind
                · subst hSame
                  exact Or.inr (Or.inr (Or.inl ⟨opened, openedAt, outer, hCloses, rfl, by simp⟩))
                · exact Or.inr (Or.inr (Or.inr ⟨kind, .mismatched opened openedAt c, rfl,
                    by simp [hSame]⟩))

theorem step_of_literal {l : OpenLiteral} (h : k.literal = some l) (c : Char) :
    k.step c = .ok (k.stepLiteral l c) := by
  rw [step, h]

/-- A literal opens and closes nothing, so that brackets inside it do not
count. -/
theorem stepLiteral_openBrackets (k : Cursor) (l : OpenLiteral) (c : Char) :
    (k.stepLiteral l c).openBrackets = k.openBrackets := by
  unfold stepLiteral
  dsimp only
  split_ifs <;> rfl

/-- Only a closing bracket cannot be passed, and the fault is placed on
it. -/
theorem step_error (h : k.step c = .error fault) :
    fault.offset = k.offset ∧ ∃ kind, closing? c = some kind := by
  unfold step at h
  split at h
  · cases h
  · split at h
    · cases h
    · rcases k.stepBrackets_cases c with ⟨_, -, hOk⟩ | hOk | ⟨_, _, _, -, -, hOk⟩ |
        ⟨kind, flaw, hClosing, hError⟩
      · simp [hOk, Except.map] at h
      · simp [hOk, Except.map] at h
      · simp [hOk, Except.map] at h
      · rw [map_error h] at hError
        cases hError
        exact ⟨rfl, kind, hClosing⟩

/-- What a step does to the open brackets and to the offsets they were
opened at. -/
theorem step_openBrackets (h : k.step c = .ok next) :
    next.openBrackets = k.openBrackets ∨
      (k.literal = none ∧ ∃ kind, opening? c = some kind ∧
        next.openBrackets = (kind, k.offset) :: k.openBrackets) ∨
      (k.literal = none ∧ ∃ kind openedAt, closes? k.shape.arrow c = some kind ∧
        k.openBrackets = (kind, openedAt) :: next.openBrackets) := by
  unfold step at h
  split at h
  · cases h
    exact Or.inl (k.stepLiteral_openBrackets _ c)
  · next hLiteral =>
      split at h
      · cases h
        exact Or.inl rfl
      · obtain ⟨openBrackets, hBrackets, rfl⟩ := map_ok h
        rcases k.stepBrackets_cases c with ⟨kind, hOpening, hOk⟩ | hOk |
          ⟨kind, openedAt, outer, hCloses, hOpen, hOk⟩ | ⟨_, _, -, hError⟩
        · cases hBrackets.symm.trans hOk
          exact Or.inr (Or.inl ⟨hLiteral, kind, hOpening, rfl⟩)
        · cases hBrackets.symm.trans hOk
          exact Or.inl rfl
        · cases hBrackets.symm.trans hOk
          exact Or.inr (Or.inr ⟨hLiteral, kind, openedAt, hCloses, hOpen⟩)
        · cases hBrackets.symm.trans hError

end Cursor

/-! ### Where brackets and literals were opened -/

/-- The text opens these brackets at their offsets and closes none of them.
Behind the last of them the walk comes to the shape `s`, in which no more
are open. -/
inductive Enclosed : List Char → List (Bracket × Nat) → Shape → Prop where
  | outside {text : List Char} {s : Shape} (hRun : start.run text = some s)
      (hKinds : s.kinds = []) : Enclosed text [] s
  | inside {front body : List Char} {outer : List (Bracket × Nat)} {arrow : Bool} {opener : Char}
      {kind : Bracket} {s : Shape} (hFront : Enclosed front outer (code [] arrow))
      (hOpener : opening? opener = some kind) (hRun : start.run body = some s)
      (hKinds : s.kinds = []) :
      Enclosed (front ++ opener :: body) ((kind, byteCount front) :: outer) s

namespace Enclosed

theorem kinds_eq (h : Enclosed text opened s) : s.kinds = [] := by
  cases h with
  | outside _ hKinds => exact hKinds
  | inside _ _ _ hKinds => exact hKinds

/-- Behind open brackets the run is the one without them, with those
brackets below. -/
theorem run_eq (h : Enclosed text opened s) :
    start.run text = some (s.under (opened.map (·.1))) := by
  induction h with
  | outside hRun _ =>
      rw [hRun, List.map_nil, Shape.under, List.append_nil]
  | @inside front body outer arrow opener kind s _ hOpener hRun _ ih =>
      have hBody := run_under (kind :: outer.map (·.1)) hRun
      rw [start, code_under, List.nil_append] at hBody
      rw [run_append, ih, Option.bind_some, code_under, List.nil_append, run,
        step_opening _ _ hOpener, Option.bind_some, hBody, List.map_cons]

/-- What neither opens nor closes a bracket for good may follow. -/
theorem append (h : Enclosed text opened s) (hRun : s.run more = some last)
    (hKinds : last.kinds = []) : Enclosed (text ++ more) opened last := by
  cases h with
  | outside hText _ =>
      exact .outside (by rw [run_append, hText, Option.bind_some, hRun]) hKinds
  | inside hFront hOpener hBody _ =>
      rw [List.append_assoc, List.cons_append]
      exact .inside hFront hOpener (by rw [run_append, hBody, Option.bind_some, hRun]) hKinds

/-- The closing of the innermost bracket makes one group of what it
encloses. -/
theorem close {kind : Bracket} {openedAt : Nat} {arrow : Bool}
    (h : Enclosed text ((kind, openedAt) :: outer) (code [] arrow))
    (hCloses : closes? arrow c = some kind) :
    Enclosed (text ++ [c]) outer (code [] false) := by
  obtain ⟨hClosing, hAngle⟩ := closing?_of_closes? hCloses
  cases h with
  | @inside front body _ before opener _ _ hFront hOpener hBody _ =>
      have hInside : (code [kind] false).run body = some (code [kind] arrow) :=
        run_under [kind] (s := start) hBody
      have hGroup : (code [] before).run (opener :: (body ++ [c])) = some (code [] false) := by
        rw [run, step_opening _ _ hOpener, Option.bind_some, run_append, hInside,
          Option.bind_some, run_singleton, step_closing _ hClosing hAngle]
      have hAll := hFront.append hGroup rfl
      rwa [← List.cons_append, ← List.append_assoc] at hAll

/-- One more character is inside the brackets that are open behind it. -/
theorem step (h : Enclosed text k.openBrackets s) (hText : Cursor.start.run text = .ok k)
    (hStep : k.step c = .ok next) : ∃ t, Enclosed (text ++ [c]) next.openBrackets t := by
  have hShape : k.shape = s.under (k.openBrackets.map (·.1)) :=
    Option.some.inj ((Cursor.run_ok hText).symm.trans h.run_eq)
  have hCode (hLiteral : k.literal = none) : s = code [] s.arrow := by
    refine eq_code h.kinds_eq ?_
    have hSame := congrArg literal hShape
    simpa [Cursor.shape, Shape.under, hLiteral] using hSame.symm
  have hArrow : k.shape.arrow = s.arrow := by rw [hShape]; rfl
  rcases Cursor.step_openBrackets hStep with hSame | ⟨hLiteral, kind, hOpening, hNext⟩ |
    ⟨hLiteral, kind, openedAt, hCloses, hOpen⟩
  · have hUnder := Cursor.step_ok hStep
    rw [hShape] at hUnder
    have hLength : next.shape.kinds.length = k.openBrackets.length := by
      rw [next.length_shape_kinds, Cursor.depth, hSame]
    obtain ⟨t, hNext, hInner⟩ := step_of_under hUnder (by rw [hLength, List.length_map])
    have hKinds : t.kinds = [] := by
      rw [hNext, Shape.under, List.length_append, List.length_map] at hLength
      exact List.eq_nil_of_length_eq_zero (by omega)
    exact ⟨t, hSame ▸ h.append (by rw [run_singleton, hInner]) hKinds⟩
  · rw [hCode hLiteral] at h
    rw [hNext, Cursor.offset_of_run hText]
    exact ⟨start, .inside h hOpening rfl rfl⟩
  · rw [hCode hLiteral, hOpen] at h
    rw [hArrow] at hCloses
    exact ⟨code [] false, h.close hCloses⟩

end Enclosed

/-- The walk remembers where the brackets were opened that are still
open. -/
theorem exists_enclosed (h : Cursor.start.run text = .ok k) :
    ∃ s, Enclosed text k.openBrackets s := by
  induction text using List.reverseRecOn generalizing k with
  | nil =>
      cases h
      exact ⟨start, .outside rfl rfl⟩
  | append_singleton text c ih =>
      rw [Cursor.run_append] at h
      obtain ⟨middle, hText, hLast⟩ := bind_ok h
      obtain ⟨next, hStep, hNext⟩ := bind_ok hLast
      cases hNext
      obtain ⟨s, hMiddle⟩ := ih hText
      exact hMiddle.step hText hStep

/-- A literal that is never closed is the one the walk is in at the end. -/
theorem literal_of_neverCloses {openedAt : Nat} {last : Cursor}
    (hLiteral : k.literal = some ⟨quote, openedAt, false⟩) (hOpen : NeverCloses quote rest)
    (hRun : k.run rest = .ok last) :
    ∃ escaped, last.literal = some ⟨quote, openedAt, escaped⟩ := by
  induction hLength : rest.length using Nat.strongRecOn generalizing k rest with
  | ind n ih =>
      cases rest with
      | nil =>
          cases hRun
          exact ⟨false, hLiteral⟩
      | cons c rest =>
          rw [List.length_cons] at hLength
          rw [Cursor.run, Cursor.step_of_literal hLiteral, ok_bind] at hRun
          by_cases hBackslash : c = '\\'
          · subst hBackslash
            have hNext : (k.stepLiteral ⟨quote, openedAt, false⟩ '\\').literal =
                some ⟨quote, openedAt, true⟩ := by
              simp [Cursor.stepLiteral]
            cases rest with
            | nil =>
                cases hRun
                exact ⟨true, hNext⟩
            | cons d rest =>
                rw [List.length_cons] at hLength
                rw [Cursor.run, Cursor.step_of_literal hNext, ok_bind] at hRun
                refine ih rest.length (by omega) (by simp [Cursor.stepLiteral]) ?_ hRun rfl
                rintro body behind rfl hBody
                exact hOpen ('\\' :: d :: body) behind rfl (.escape d hBody)
          · have hQuote : c ≠ quote := by
              rintro rfl
              exact hOpen [] rest rfl .nil
            refine ih rest.length (by omega) ?_ ?_ hRun rfl
            · simp [Cursor.stepLiteral, hBackslash, hQuote, hLiteral]
            · rintro body behind rfl hBody
              exact hOpen (c :: body) behind rfl (.cons hQuote hBackslash hBody)

/-- Behind a text with a bare word the walk is outside literals, so that
brackets there are read as brackets. -/
theorem literal_of_bare (h : Bare none text word) (hRun : Cursor.start.run text = .ok k) :
    k.literal = none := by
  obtain ⟨arrow, hWord⟩ := run_bare h []
  have hShape := (Cursor.run_ok hRun).symm.trans hWord
  obtain ⟨kinds, -, hCode⟩ := Option.map_eq_some_iff.mp hShape.symm
  have hLiteral := congrArg literal hCode
  simpa [Cursor.shape, code] using hLiteral.symm

/-- Behind a text with a literal left open the walk is in that literal, with
its quote and the offset where it began. -/
theorem literal_of_leavesOpen (h : LeavesOpen none text front) (hRun : Cursor.start.run text = .ok k) :
    ∃ quote escaped, k.literal = some ⟨quote, byteCount front, escaped⟩ := by
  obtain ⟨word, quote, rest, rfl, hFront, hQuote, hOpen⟩ := h
  rw [Cursor.run_append] at hRun
  obtain ⟨middle, hMiddle, hRest⟩ := bind_ok hRun
  obtain ⟨next, hStep, hEnd⟩ := bind_ok hRest
  have hCode := literal_of_bare hFront hMiddle
  have hNext : next.literal = some ⟨quote, byteCount front, false⟩ := by
    rw [Cursor.step, hCode, hQuote] at hStep
    cases hStep
    simp [Cursor.offset_of_run hMiddle]
  obtain ⟨escaped, hLast⟩ := literal_of_neverCloses hNext hOpen hEnd
  exact ⟨quote, escaped, hLast⟩

/-! ### Balance and nesting -/

/-- The scanner and the grammar agree: text is balanced for the one exactly
if it is well nested by the other. -/
theorem balanced_iff_wellNested : Balanced text ↔ WellNested text := by
  constructor
  · intro h
    obtain ⟨last, arrow, hRun, hShape⟩ := h.exists_run
    rcases exists_bare_or_leavesOpen none text with ⟨word, hWord⟩ | ⟨front, hOpen⟩
    · obtain ⟨other, hKinds⟩ := run_bare hWord []
      have hLast := (Cursor.run_ok hRun).symm.trans hKinds
      obtain ⟨kinds, hNone, hCode⟩ := Option.map_eq_some_iff.mp hLast.symm
      have hNil : kinds = [] := by
        have hSame := congrArg Shape.kinds (hCode.trans hShape)
        exact hSame
      exact ⟨word, hWord, nested_iff.mpr (hNil ▸ hNone)⟩
    · obtain ⟨quote, escaped, hLiteral⟩ := literal_of_leavesOpen hOpen hRun
      have hNone := congrArg literal hShape
      simp [Cursor.shape, code, hLiteral] at hNone
  · rintro ⟨word, hWord, hNested⟩
    obtain ⟨arrow, hRun⟩ := run_bare hWord []
    rw [nested_iff.mp hNested] at hRun
    exact balanced_iff.mpr ⟨arrow, hRun⟩

/-! ### Texts that can still be balanced -/

/-- More text can close whatever is open. -/
def Completable (text : List Char) : Prop :=
  ∃ more, WellNested (text ++ more)

def closer : Bracket → Char
  | .round => ')'
  | .square => ']'
  | .angle => '>'
  | .curly => '\x7d'

/-- Every bracket has a closer, which is read back as its kind. -/
theorem closing?_closer (kind : Bracket) : closing? kind.closer = some kind := by
  cases kind <;> rfl

/-- The open brackets may be closed one after the other, innermost first. -/
theorem run_closers (kinds : List Bracket) :
    (code kinds false).run (kinds.map closer) = some (code [] false) := by
  induction kinds with
  | nil => rfl
  | cons kind outer ih =>
      rw [List.map_cons, run, step_closing outer (closing?_closer kind) fun _ => rfl,
        Option.bind_some, ih]

/-- Whatever the walk passes over can be completed: a space keeps a `=` from
a `>` and ends an escape, then come the quote of an open literal and the
brackets from the innermost. -/
theorem exists_run_eq_code (hQuoted : s.Quoted) : ∃ more, s.run more = some (code [] false) := by
  have hCode (arrow : Bool) : (code s.kinds arrow).run (' ' :: s.kinds.map closer) =
      some (code [] false) := by
    rw [run, step_plain (by decide), Option.bind_some, run_closers]
  cases hLiteral : s.literal with
  | none =>
      refine ⟨' ' :: s.kinds.map closer, ?_⟩
      rw [eq_code rfl hLiteral]
      exact hCode s.arrow
  | some l =>
      obtain ⟨quote, escaped⟩ := l
      have hQuote := hQuoted quote escaped hLiteral
      have hInside : s.step ' ' = some (s.within quote false) := by
        simp only [Shape.step, hLiteral, stepLiteral_blank hQuote isBlank_space]
        cases escaped with
        | true => rfl
        | false => simp [within, ← hLiteral]
      have hClosed : (s.within quote false).step quote = some (code s.kinds false) :=
        step_closingQuote hQuote s.kinds s.arrow
      refine ⟨' ' :: quote :: ' ' :: s.kinds.map closer, ?_⟩
      rw [run, hInside, Option.bind_some, run, hClosed, Option.bind_some, hCode]

/-- Text can be completed exactly if it is read without a fault: what is
open may always be closed. -/
theorem completable_iff : Completable text ↔ ∃ k, Cursor.start.run text = .ok k := by
  constructor
  · rintro ⟨more, hNested⟩
    obtain ⟨last, arrow, hRun, -⟩ := (balanced_iff_wellNested.mpr hNested).exists_run
    rw [Cursor.run_append] at hRun
    obtain ⟨k, hText, -⟩ := bind_ok hRun
    exact ⟨k, hText⟩
  · rintro ⟨k, hRun⟩
    have hShape : start.run text = some k.shape := Cursor.run_ok hRun
    obtain ⟨more, hMore⟩ := exists_run_eq_code (quoted_start.run hShape)
    refine ⟨more, balanced_iff_wellNested.mp (balanced_iff.mpr ⟨false, ?_⟩)⟩
    rw [run_append, hShape, Option.bind_some, hMore]

/-! ### Faults -/

/-- The place at which a text is at fault. -/
inductive FaultAt (text : List Char) : Nat → Prop where
  /-- The opening quote of the literal that is never closed. -/
  | literal {front : List Char} (hOpen : LeavesOpen none text front)
      (hCompletable : Completable text) : FaultAt text (byteCount front)
  /-- The first closing bracket behind which nothing can balance the text. -/
  | closer {front rest : List Char} {c : Char} {kind : Bracket}
      (hText : text = front ++ c :: rest) (hCloser : closing? c = some kind)
      (hBefore : Completable front) (hBehind : ¬Completable (front ++ [c])) :
      FaultAt text (byteCount front)
  /-- The innermost bracket still open, if all literals are closed and no
  bracket is at fault: it stands outside literals, and the text behind it is
  balanced. -/
  | opener {front inside word outerWord : List Char} {c : Char} {kind : Bracket}
      (hText : text = front ++ c :: inside) (hOpener : opening? c = some kind)
      (hCompletable : Completable text) (hBare : Bare none text word)
      (hFront : Bare none front outerWord) (hInside : WellNested inside) :
      FaultAt text (byteCount front)

/-- Outside of literals, what was read has a bare reading, with the literals
and the arrows taken out. -/
theorem exists_bare_of_code (hRun : Cursor.start.run text = .ok k) (hCode : k.literal = none) :
    ∃ word, Bare none text word := by
  rcases exists_bare_or_leavesOpen none text with hWord | ⟨front, hOpen⟩
  · exact hWord
  · obtain ⟨quote, escaped, hLiteral⟩ := literal_of_leavesOpen hOpen hRun
    rw [hCode] at hLiteral
    cases hLiteral

/-- A bracket is open behind `front`, and everything behind it is closed. -/
def EndsInside (text front : List Char) : Prop :=
  ∃ opener kind inside kinds arrow, text = front ++ opener :: inside ∧
    opening? opener = some kind ∧ start.run front = some (code kinds arrow) ∧ Balanced inside

namespace EndsInside

/-- Text that ends inside of a literal or a bracket is not balanced. -/
theorem not_balanced (h : EndsInside text front) : ¬Balanced text := by
  obtain ⟨opener, kind, inside, kinds, arrow, rfl, hOpener, hFront, hInside⟩ := h
  intro hBalanced
  obtain ⟨last, hRun⟩ := balanced_iff.mp hBalanced
  rw [run_append, hFront, Option.bind_some, run, step_opening _ _ hOpener, Option.bind_some,
    hInside.run] at hRun
  have hKinds := congrArg Shape.kinds (Option.some.inj hRun)
  cases hKinds

/-- Everything behind the earlier of two such brackets is closed, the later
one too. -/
theorem not_longer (h : EndsInside text front) : ¬EndsInside text (front ++ c :: more) := by
  obtain ⟨opener, kind, inside, kinds, arrow, hText, hOpener, hFront, hInside⟩ := h
  rintro ⟨other, otherKind, inner, deeper, otherArrow, hOther, hOtherOpener, hBoth, hInner⟩
  rw [hText, List.append_assoc, List.append_cancel_left_eq, List.cons_append] at hOther
  obtain ⟨rfl, rfl⟩ := List.cons.inj hOther
  obtain ⟨last, hLast⟩ := balanced_iff.mp hInside
  rw [run_append] at hLast
  obtain ⟨middle, hMiddle, -⟩ := Option.bind_eq_some_iff.mp hLast
  have hUnder : (code (kind :: kinds) false).run more = some (middle.under (kind :: kinds)) :=
    run_under (kind :: kinds) hMiddle
  rw [run_append, hFront, Option.bind_some, run, step_opening _ _ hOpener, Option.bind_some,
    hUnder] at hBoth
  have hLiteral : middle.literal = none := congrArg literal (Option.some.inj hBoth)
  have hCode : start.run more = some (code middle.kinds middle.arrow) :=
    hMiddle.trans (congrArg some (eq_code rfl hLiteral))
  have hEnds : EndsInside (more ++ other :: inner) more :=
    ⟨other, otherKind, inner, _, _, rfl, hOtherOpener, hCode, hInner⟩
  exact hEnds.not_balanced hInside

/-- The front at which a text ends inside is one, so that the fault reported
for it is one. -/
theorem unique {otherFront : List Char} (h : EndsInside text front)
    (hOther : EndsInside text otherFront) : front = otherFront := by
  obtain ⟨opener, _, inside, _, _, hText, -⟩ := id h
  obtain ⟨other, _, inner, _, _, hOtherText, -⟩ := id hOther
  rcases List.append_eq_append_iff.mp (hText.symm.trans hOtherText) with
    ⟨between, rfl, -⟩ | ⟨between, rfl, -⟩
  · cases between with
    | nil => exact (List.append_nil front).symm
    | cons c more => exact absurd hOther h.not_longer
  · cases between with
    | nil => exact List.append_nil otherFront
    | cons c more => exact absurd h hOther.not_longer

theorem bare (h : EndsInside text front) : ∃ word, Bare none front word := by
  obtain ⟨_, _, _, kinds, arrow, -, -, hFront, -⟩ := h
  obtain ⟨k, hRun, hShape⟩ := Cursor.run_of_shape
    (show Cursor.start.shape.run front = _ from hFront)
  have hLiteral : k.literal = none := by
    have hSame := congrArg literal hShape
    simpa [Cursor.shape, code] using hSame
  exact exists_bare_of_code hRun hLiteral

end EndsInside

/-- Outside literals the walk ends inside the bracket that it reports. -/
theorem endsInside_of_run {kind : Bracket} {openedAt : Nat} (hRun : Cursor.start.run text = .ok k)
    (hCode : k.literal = none) (hOpen : k.openBrackets = (kind, openedAt) :: outer) :
    ∃ front, openedAt = byteCount front ∧ EndsInside text front := by
  obtain ⟨s, hEnclosed⟩ := exists_enclosed hRun
  rw [hOpen] at hEnclosed
  have hShape : k.shape = _ :=
    Option.some.inj ((Cursor.run_ok hRun).symm.trans hEnclosed.run_eq)
  have hLiteral : s.literal = none := by
    have hSame := congrArg literal hShape
    simpa [Cursor.shape, hCode, Shape.under] using hSame.symm
  cases hEnclosed with
  | @inside front body _ arrow opener _ _ hFront hOpener hBody hKinds =>
      have hInside : Balanced body :=
        balanced_iff.mpr ⟨s.arrow, hBody.trans (congrArg some (eq_code hKinds hLiteral))⟩
      exact ⟨front, rfl, opener, kind, body, _, arrow, rfl, hOpener, hFront.run_eq, hInside⟩

/-- The offset that is reported is that of a fault by the grammar, which
knows nothing of how the text is walked. -/
theorem faultAt_of_check (h : check text = .error fault) : FaultAt text fault.offset := by
  rcases bind_error h with hRun | ⟨k, hRun, hFinish⟩
  · obtain ⟨front, c, rest, middle, rfl, hFront, hStep⟩ := Cursor.run_error hRun
    obtain ⟨hOffset, kind, hCloser⟩ := Cursor.step_error hStep
    rw [hOffset, Cursor.offset_of_run hFront]
    refine .closer rfl hCloser (completable_iff.mpr ⟨middle, hFront⟩) fun hBehind => ?_
    obtain ⟨k, hBoth⟩ := completable_iff.mp hBehind
    rw [Cursor.run_append, hFront, ok_bind] at hBoth
    obtain ⟨next, hNext, -⟩ := bind_ok hBoth
    rw [hStep] at hNext
    cases hNext
  · have hCompletable := completable_iff.mpr ⟨k, hRun⟩
    unfold Cursor.finish at hFinish
    split at hFinish
    · next l hLiteral =>
        cases hFinish
        rcases exists_bare_or_leavesOpen none text with ⟨word, hWord⟩ | ⟨front, hOpen⟩
        · rw [literal_of_bare hWord hRun] at hLiteral
          cases hLiteral
        · obtain ⟨quote, escaped, hSame⟩ := literal_of_leavesOpen hOpen hRun
          cases hSame.symm.trans hLiteral
          exact .literal hOpen hCompletable
    · next hCode =>
        split at hFinish
        · cases hFinish
        · next kind openedAt outer hOpen =>
            cases hFinish
            obtain ⟨word, hWord⟩ := exists_bare_of_code hRun hCode
            obtain ⟨front, rfl, hEnds⟩ := endsInside_of_run hRun hCode hOpen
            obtain ⟨outerWord, hFront⟩ := hEnds.bare
            obtain ⟨opener, _, inside, _, _, hText, hOpener, -, hInside⟩ := hEnds
            exact .opener hText hOpener hCompletable hWord hFront
              (balanced_iff_wellNested.mp hInside)

/-- A text has no other fault than the one that is reported. With the
converse this makes the description of faults exact. -/
theorem check_of_faultAt {offset : Nat} (h : FaultAt text offset) :
    ∃ fault, check text = .error fault ∧ fault.offset = offset := by
  cases h with
  | @literal front hOpen hCompletable =>
      obtain ⟨k, hRun⟩ := completable_iff.mp hCompletable
      obtain ⟨quote, escaped, hLiteral⟩ := literal_of_leavesOpen hOpen hRun
      exact ⟨⟨byteCount front, .unterminatedLiteral⟩,
        by rw [check, hRun, ok_bind, Cursor.finish, hLiteral], rfl⟩
  | @closer front rest c kind hText _ hBefore hBehind =>
      obtain ⟨middle, hFront⟩ := completable_iff.mp hBefore
      cases hStep : middle.step c with
      | ok next =>
          refine absurd (completable_iff.mpr ⟨next, ?_⟩) hBehind
          rw [Cursor.run_append, hFront, ok_bind, Cursor.run, hStep]
          rfl
      | error fault =>
          refine ⟨fault, ?_, ?_⟩
          · rw [check, hText, Cursor.run_append, hFront, ok_bind, Cursor.run, hStep]
            rfl
          · rw [(Cursor.step_error hStep).1, Cursor.offset_of_run hFront]
  | @opener front inside word outerWord c kind hText hOpener hCompletable hBare hFront hInside =>
      obtain ⟨k, hRun⟩ := completable_iff.mp hCompletable
      have hCode := literal_of_bare hBare hRun
      have hEnds : EndsInside text front := by
        rw [hText, Cursor.run_append] at hRun
        obtain ⟨middle, hMiddle, -⟩ := bind_ok hRun
        have hLiteral : middle.shape.literal = none := by
          simp [Cursor.shape, literal_of_bare hFront hMiddle]
        exact ⟨c, kind, inside, _, _, hText, hOpener,
          (Cursor.run_ok hMiddle).trans (congrArg some (eq_code rfl hLiteral)),
          balanced_iff_wellNested.mpr hInside⟩
      cases hOpen : k.openBrackets with
      | nil =>
          have hBalanced : Balanced text := by
            rw [Balanced, check, hRun, ok_bind, Cursor.finish, hCode, hOpen]
          exact absurd hBalanced hEnds.not_balanced
      | cons innermost outer =>
          obtain ⟨opened, openedAt⟩ := innermost
          obtain ⟨otherFront, rfl, hOther⟩ := endsInside_of_run hRun hCode hOpen
          refine ⟨⟨byteCount otherFront, .neverClosed opened⟩, ?_, ?_⟩
          · rw [check, hRun, ok_bind, Cursor.finish, hCode, hOpen]
          · rw [hOther.unique hEnds]

/-! ### Cutting a text -/

variable {separator : Char}

/-- Cutting walks the whole text, whatever the separator is. -/
theorem map_splitTopFrom (separator : Char) (k : Cursor) (text : List Char) :
    (splitTopFrom separator k text).map (fun _ => ()) = k.run text >>= Cursor.finish := by
  induction text generalizing k with
  | nil =>
      rw [splitTopFrom, Cursor.run, ok_bind]
      cases k.finish <;> rfl
  | cons c rest ih =>
      rw [splitTopFrom, Cursor.run]
      cases k.step c with
      | error fault => rfl
      | ok next =>
          rw [ok_bind, ok_bind, ← ih next]
          cases splitTopFrom separator next rest <;> rfl

/-- Cutting a text fails as checking it fails, and with the same fault,
whatever the separator. -/
theorem map_splitTop (separator : Char) (text : List Char) :
    (splitTop separator text).map (fun _ => ()) = check text :=
  map_splitTopFrom separator .start text

/-- The walk of a text that does not nest meets a fault, and that of one
that does meets none. -/
theorem exists_fault_iff : (∃ fault, check text = .error fault) ↔ ¬WellNested text := by
  rw [← balanced_iff_wellNested, Balanced]
  cases check text <;> simp

/-- The texts that can be cut are the balanced ones. What the pieces are is
another matter. -/
theorem splitTop_ok_iff : (∃ pieces, splitTop separator text = .ok pieces) ↔ Balanced text := by
  rw [Balanced, ← map_splitTop separator]
  cases splitTop separator text <;> simp [Except.map]

/-- So the faults of a cut are those of the check. They do not depend on the
separator. -/
theorem splitTop_error_iff : splitTop separator text = .error fault ↔ check text = .error fault := by
  rw [← map_splitTop separator]
  cases splitTop separator text <;> simp [Except.map]

/-- A text is cut exactly if all its literals are closed and its brackets
nest. Otherwise it is refused at the one place where it is at fault. -/
theorem splitTop_ok_iff_wellNested (separator : Char) (text : List Char) :
    ((∃ pieces, splitTop separator text = .ok pieces) ↔ WellNested text) ∧
      ∀ offset, (∃ fault, splitTop separator text = .error fault ∧ fault.offset = offset) ↔
        FaultAt text offset := by
  constructor
  · rw [← balanced_iff_wellNested, Balanced, ← map_splitTop separator]
    cases splitTop separator text <;> simp [Except.map]
  · intro offset
    simp only [splitTop_error_iff]
    constructor
    · rintro ⟨fault, hFault, rfl⟩
      exact faultAt_of_check hFault
    · exact check_of_faultAt

/-! ### Searching a text -/

/-- A search that fails has walked to the fault that the walk of the whole
text meets. -/
theorem run_of_breakTopFrom_error {accepts : Char → List Char → Bool}
    (h : breakTopFrom accepts k text = .error fault) : k.run text >>= Cursor.finish = .error fault := by
  induction text generalizing k with
  | nil =>
      rcases bind_error h with hFinish | ⟨_, -, hNone⟩
      · exact hFinish
      · cases hNone
  | cons c rest ih =>
      rcases bind_error h with hStep | ⟨next, hStep, -⟩
      · rw [Cursor.run, hStep]
        rfl
      · rw [breakTopFrom_cons hStep] at h
        split at h
        · cases h
        · rw [Cursor.run, hStep, ok_bind]
          exact ih (map_error h)

/-- The search for an arrow fails as the walk does, but not behind an
arrow. -/
theorem hasArrow_error_iff :
    hasArrow text = .error fault ↔ check text = .error fault ∧ Lacks arrow text := by
  have hFault {fault : Fault} (h : hasArrow text = .error fault) : check text = .error fault := by
    rcases bind_error h with hSearch | ⟨_, -, hNone⟩
    · exact run_of_breakTopFrom_error hSearch
    · cases hNone
  constructor
  · refine fun h => ⟨hFault h, fun before after hText hBefore => ?_⟩
    rw [hasArrow_eq_true_iff.mpr ⟨before, after, hText, hBefore⟩] at h
    cases h
  · rintro ⟨hCheck, hLacks⟩
    cases hArrow : hasArrow text with
    | error other =>
        rw [hFault hArrow] at hCheck
        rw [Except.error.inj hCheck]
    | ok found =>
        cases found with
        | true =>
            obtain ⟨before, after, hText, hBefore⟩ := hasArrow_eq_true_iff.mp hArrow
            exact absurd hBefore (hLacks before after hText)
        | false =>
            have hBalanced : check text = .ok () := (hasArrow_eq_false_iff.mp hArrow).1
            rw [hBalanced] at hCheck
            cases hCheck

end ScriptBindings.Bracket
