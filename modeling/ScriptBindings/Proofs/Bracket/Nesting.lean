import ScriptBindings.Proofs.Bracket.Outside

/-! Balance without a walk. A text is taken for its bare word, which is what
is left of it without string literals and without the `>` of its arrows, and
the brackets of that word must nest. The walk accepts exactly the texts for
which they do. -/
namespace ScriptBindings.Bracket

open Outcomes Shape

/-! ### Nested words -/

/-- What stands between the quotes of a literal. The quote occurs in it only
escaped. -/
inductive LiteralText (quote : Char) : List Char → Prop where
  | nil : LiteralText quote []
  | escape (c : Char) {rest : List Char} (later : LiteralText quote rest) :
      LiteralText quote ('\\' :: c :: rest)
  | cons {c : Char} {rest : List Char} (hQuote : c ≠ quote) (hBackslash : c ≠ '\\')
      (later : LiteralText quote rest) : LiteralText quote (c :: rest)

/-- The bare word of a text behind the character `previous`: the literals of
the text are left out, all of them closed, and so is every `>` directly
behind a `=`. -/
inductive Bare : Option Char → List Char → List Char → Prop where
  | nil {previous : Option Char} : Bare previous [] []
  | literal {previous : Option Char} {quote : Char} {body rest word : List Char}
      (hQuote : isQuote quote = true) (hBody : LiteralText quote body)
      (later : Bare (some quote) rest word) :
      Bare previous (quote :: (body ++ quote :: rest)) word
  | arrowHead {rest word : List Char} (later : Bare (some '>') rest word) :
      Bare (some '=') ('>' :: rest) word
  | char {previous : Option Char} {c : Char} {rest word : List Char}
      (hQuote : isQuote c = false) (hArrow : previous = some '=' → c ≠ '>')
      (later : Bare (some c) rest word) : Bare previous (c :: rest) (c :: word)

/-- Every bracket of the word is closed by its own kind, one group within
another. -/
inductive Nested : List Char → Prop where
  | nil : Nested []
  | char {c : Char} {rest : List Char} (hOpening : opening? c = none)
      (hClosing : closing? c = none) (later : Nested rest) : Nested (c :: rest)
  | group {opener closer : Char} {kind : Bracket} {inside rest : List Char}
      (hOpener : opening? opener = some kind) (hCloser : closing? closer = some kind)
      (hInside : Nested inside) (later : Nested rest) :
      Nested (opener :: (inside ++ closer :: rest))

/-- All literals are closed, and the brackets outside them nest. -/
def WellNested (text : List Char) : Prop :=
  ∃ word, Bare none text word ∧ Nested word

variable {text word rest front inside more : List Char} {kinds left : List Bracket}
  {previous : Option Char} {quote c : Char}

/-! ### The brackets of a word -/

namespace Shape

/-- The brackets open behind a word in which every `>` is a bracket. -/
def runKinds : List Bracket → List Char → Option (List Bracket)
  | kinds, [] => some kinds
  | kinds, c :: rest => (stepKinds false kinds c).bind (runKinds · rest)

/-- Brackets are stacked along the text, and a stack is all that one part
hands to the next. -/
theorem runKinds_append (kinds : List Bracket) (first second : List Char) :
    runKinds kinds (first ++ second) = (runKinds kinds first).bind (runKinds · second) := by
  induction first generalizing kinds with
  | nil => rfl
  | cons c rest ih =>
      simp only [List.cons_append, runKinds]
      cases stepKinds false kinds c with
      | none => rfl
      | some left => exact ih left

end Shape

namespace Nested

theorem append (h : Nested word) (hRest : Nested rest) : Nested (word ++ rest) := by
  induction h with
  | nil => exact hRest
  | char hOpening hClosing _ ih => exact .char hOpening hClosing ih
  | @group opener closer kind inside later hOpener hCloser hInside _ _ ih =>
      rw [List.cons_append, List.append_assoc, List.cons_append]
      exact .group hOpener hCloser hInside ih

/-- A nested word leaves open what was open. -/
theorem runKinds_eq (h : Nested word) (kinds : List Bracket) :
    runKinds kinds word = some kinds := by
  induction h generalizing kinds with
  | nil => rfl
  | @char c rest hOpening hClosing _ ih =>
      have hStep : stepKinds false kinds c = some kinds :=
        stepKinds_eq_some_iff.mpr (Or.inr (Or.inl ⟨hOpening, hClosing, rfl⟩))
      rw [runKinds, hStep, Option.bind_some, ih]
  | @group opener closer kind inside rest hOpener hCloser _ _ ihInside ihRest =>
      have hOpen : stepKinds false kinds opener = some (kind :: kinds) :=
        stepKinds_eq_some_iff.mpr (Or.inl ⟨kind, hOpener, rfl⟩)
      have hClose : stepKinds false (kind :: kinds) closer = some kinds :=
        stepKinds_eq_some_iff.mpr
          (Or.inr (Or.inr ⟨kind, (quote_arrow_of_closing hCloser).1, hCloser, rfl⟩))
      rw [runKinds, hOpen, Option.bind_some, runKinds_append, ihInside, Option.bind_some,
        runKinds, hClose, Option.bind_some, ihRest]

end Nested

/-- The word closes these brackets from the innermost outwards, with nested
words before, between and behind the closing ones. -/
def ClosesAll : List Bracket → List Char → Prop
  | [], word => Nested word
  | kind :: outer, word => ∃ inside closer rest, word = inside ++ closer :: rest ∧
      Nested inside ∧ closing? closer = some kind ∧ ClosesAll outer rest

namespace ClosesAll

/-- A nested text in front leaves what has to be closed as it is. -/
theorem nested_append (h : Nested front) (hRest : ClosesAll kinds rest) :
    ClosesAll kinds (front ++ rest) := by
  cases kinds with
  | nil => exact h.append hRest
  | cons kind outer =>
      obtain ⟨inside, closer, behind, rfl, hInside, hCloser, hBehind⟩ := hRest
      exact ⟨front ++ inside, closer, behind, (List.append_assoc _ _ _).symm,
        h.append hInside, hCloser, hBehind⟩

theorem of_runKinds (h : runKinds kinds word = some []) : ClosesAll kinds word := by
  induction word generalizing kinds with
  | nil =>
      cases h
      exact Nested.nil
  | cons c rest ih =>
      obtain ⟨left, hStep, hRest⟩ := Option.bind_eq_some_iff.mp h
      have hLater := ih hRest
      rcases stepKinds_eq_some_iff.mp hStep with ⟨kind, hOpening, rfl⟩ |
        ⟨hOpening, hClosing, rfl⟩ | ⟨kind, -, hCloses, rfl⟩
      · -- the bracket that `c` opens is closed in the rest, and the group goes in front
        obtain ⟨inside, closer, behind, rfl, hInside, hCloser, hBehind⟩ := hLater
        have hGroup : Nested (c :: (inside ++ [closer])) :=
          .group hOpening hCloser hInside .nil
        have hAll := hBehind.nested_append hGroup
        rwa [List.cons_append, List.append_assoc, List.singleton_append] at hAll
      · have hChar : Nested [c] := .char hOpening hClosing .nil
        exact hLater.nested_append hChar
      · exact ⟨[], c, rest, rfl, .nil, hCloses, hLater⟩

end ClosesAll

/-- The stack is empty at the end exactly for the texts that the grammar
nests. -/
theorem nested_iff : Nested word ↔ runKinds [] word = some [] :=
  ⟨fun h => h.runKinds_eq [], fun h => ClosesAll.of_runKinds h⟩

/-! ### Texts and their bare words -/

namespace Shape

/-- In a literal, with the brackets of `s` open around it. -/
def within (s : Shape) (quote : Char) (escaped : Bool) : Shape :=
  { s with literal := some (quote, escaped) }

/-- A quote begins a literal at every depth. -/
theorem step_quote (hQuote : isQuote quote = true) (kinds : List Bracket) (arrow : Bool) :
    (code kinds arrow).step quote = some ((code kinds arrow).within quote false) := by
  simp [step, code, within, hQuote]

/-- The same quote ends it, back at the depth where it began. -/
theorem step_closingQuote (hQuote : isQuote quote = true) (kinds : List Bracket) (arrow : Bool) :
    ((code kinds arrow).within quote false).step quote = some (code kinds false) := by
  have hBackslash : quote ≠ '\\' := by
    rintro rfl
    cases hQuote
  have hArrow : quote ≠ '=' := by
    rintro rfl
    cases hQuote
  simp [step, stepLiteral, code, within, hBackslash, hArrow]

/-- The text of a literal does not lead out of it. -/
theorem run_literalText (h : LiteralText quote text) (s : Shape) :
    (s.within quote false).run text = some (s.within quote false) := by
  induction h with
  | nil => rfl
  | escape c _ ih => simpa [run, step, stepLiteral, within] using ih
  | cons hQuote hBackslash _ ih => simpa [run, step, stepLiteral, within, hQuote, hBackslash] using ih

/-- The walk over a text opens and closes the brackets of its bare word. -/
theorem run_bare (h : Bare previous text word) (kinds : List Bracket) :
    ∃ arrow, (code kinds (previous == some '=')).run text =
      (runKinds kinds word).map (code · arrow) := by
  induction h generalizing kinds with
  | nil => exact ⟨_, rfl⟩
  | @literal previous quote body rest word hQuote hBody _ ih =>
      obtain ⟨arrow, hRest⟩ := ih kinds
      have hArrow : (some quote == some '=') = false := by
        rw [beq_eq_false_iff_ne]
        rintro ⟨⟩
        cases hQuote
      rw [hArrow] at hRest
      refine ⟨arrow, ?_⟩
      rw [run, step_quote hQuote, Option.bind_some, run_append, run_literalText hBody,
        Option.bind_some, run, step_closingQuote hQuote, Option.bind_some, hRest]
  | @arrowHead rest word _ ih =>
      obtain ⟨arrow, hRest⟩ := ih kinds
      have hStep : (code kinds true).step '>' = some (code kinds false) := rfl
      exact ⟨arrow, by simpa [run, hStep] using hRest⟩
  | @char previous c rest word hQuote hArrow _ ih =>
      have hKinds : stepKinds (previous == some '=') kinds c = stepKinds false kinds c :=
        stepKinds_eq_false (fun hEqual => hArrow (by simpa using hEqual)) kinds
      cases hStep : stepKinds false kinds c with
      | none => exact ⟨false, by simp [run, step, code, runKinds, hQuote, hKinds, hStep]⟩
      | some left =>
          obtain ⟨arrow, hRest⟩ := ih left
          refine ⟨arrow, ?_⟩
          simpa [run, step, code, runKinds, hQuote, hKinds, hStep] using hRest

end Shape

/-- What follows an opening quote never closes the literal. -/
def NeverCloses (quote : Char) (text : List Char) : Prop :=
  ∀ body rest, text = body ++ quote :: rest → ¬LiteralText quote body

/-- The text has a literal that is never closed, and it begins behind
`front`. -/
def LeavesOpen (previous : Option Char) (text front : List Char) : Prop :=
  ∃ word quote rest, text = front ++ quote :: rest ∧ Bare previous front word ∧
    isQuote quote = true ∧ NeverCloses quote rest

/-- What is bare in front of a literal left open may have more in front of
it. -/
theorem LeavesOpen.behind {lead : List Char} {other : Option Char}
    (h : LeavesOpen other text front)
    (hLead : ∀ rest word, Bare other rest word → ∃ longer, Bare previous (lead ++ rest) longer) :
    LeavesOpen previous (lead ++ text) (lead ++ front) := by
  obtain ⟨word, quote, rest, rfl, hFront, hQuote, hOpen⟩ := h
  obtain ⟨longer, hLonger⟩ := hLead front word hFront
  exact ⟨longer, quote, rest, (List.append_assoc _ _ _).symm, hLonger, hQuote, hOpen⟩

/-- A text has a bare word, or one of its literals is never closed. There is
no third case, which is what makes the faults complete. -/
theorem exists_bare_or_leavesOpen (previous : Option Char) (text : List Char) :
    (∃ word, Bare previous text word) ∨ ∃ front, LeavesOpen previous text front := by
  induction hLength : text.length using Nat.strongRecOn generalizing previous text with
  | ind n ih =>
      -- what holds of a shorter rest holds of the text, if the part in front of it is bare
      have hBehind (lead rest : List Char) (other : Option Char) (hText : text = lead ++ rest)
          (hShorter : rest.length < n) (hLead : ∀ rest word, Bare other rest word →
            ∃ longer, Bare previous (lead ++ rest) longer) :
          (∃ word, Bare previous text word) ∨ ∃ front, LeavesOpen previous text front := by
        subst hText
        rcases ih rest.length hShorter other rest rfl with ⟨word, hWord⟩ | ⟨front, hFront⟩
        · exact Or.inl (hLead rest word hWord)
        · exact Or.inr ⟨lead ++ front, hFront.behind hLead⟩
      cases text with
      | nil => exact Or.inl ⟨[], .nil⟩
      | cons c rest =>
          rw [List.length_cons] at hLength
          by_cases hQuote : isQuote c = true
          · by_cases hOpen : NeverCloses c rest
            · exact Or.inr ⟨[], [], c, rest, rfl, .nil, hQuote, hOpen⟩
            · simp only [NeverCloses, not_forall, not_not] at hOpen
              obtain ⟨body, behind, rfl, hBody⟩ := hOpen
              rw [List.length_append, List.length_cons] at hLength
              refine hBehind (c :: (body ++ [c])) behind (some c) (by simp) (by omega)
                fun rest word hRest => ⟨word, ?_⟩
              have hLiteral : Bare previous (c :: (body ++ c :: rest)) word :=
                .literal hQuote hBody hRest
              simpa using hLiteral
          · rw [Bool.not_eq_true] at hQuote
            refine hBehind [c] rest (some c) rfl (by omega) fun rest word hRest => ?_
            by_cases hArrow : previous = some '=' ∧ c = '>'
            · obtain ⟨rfl, rfl⟩ := hArrow
              exact ⟨word, .arrowHead hRest⟩
            · exact ⟨c :: word, .char hQuote (fun hEqual hHead => hArrow ⟨hEqual, hHead⟩) hRest⟩

end ScriptBindings.Bracket
