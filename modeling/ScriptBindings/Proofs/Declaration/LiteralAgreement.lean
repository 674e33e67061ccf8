import ScriptBindings.Declaration.Comment
import ScriptBindings.Proofs.Bracket.Shape

/-! Two passes over a source tell literals apart from code: the one that
blanks comments and the walk over what it leaves. They agree on every
character up to the first newline at which blanking ends a literal, and no
further: the walk stays in the literal there. -/
namespace ScriptBindings.Declaration

open ScriptBindings.Bracket

/-- A character that blanking writes, and what it takes the character for:
part of a comment, or of a literal with this quote, where it may be escaped.
The opening quote of a literal is not yet part of it. -/
structure Mark where
  char : Char
  isComment : Bool
  literal : Option (Char × Bool)
  deriving DecidableEq, Repr

namespace Mark

/-- A newline that ends the literal it stands in. -/
def breaksLiteral (m : Mark) : Bool :=
  m.char == '\n' && m.literal.any (!·.2)

end Mark

def commentMarks (blanks : List Char) : List Mark :=
  blanks.map fun c => ⟨c, true, none⟩

/-- What is written from a region on, character by character. -/
def marksFrom : Region → List Char → List Mark
  | _, [] => []
  | .code, '/' :: '/' :: rest => commentMarks [' ', ' '] ++ marksFrom .lineComment rest
  | .code, '/' :: '*' :: rest => commentMarks [' ', ' '] ++ marksFrom (.blockComment []) rest
  | .code, c :: rest =>
      ⟨c, false, none⟩ :: marksFrom (if isQuote c then .literal c false else .code) rest
  | .literal quote escaped, c :: rest =>
      ⟨c, false, some (quote, escaped)⟩ :: marksFrom (afterLiteral quote escaped c) rest
  | .lineComment, c :: rest =>
      if c == '\n' then ⟨c, false, none⟩ :: marksFrom .code rest
      else commentMarks (blankOut c) ++ marksFrom .lineComment rest
  | .blockComment _, '*' :: '/' :: rest => commentMarks [' ', ' '] ++ marksFrom .code rest
  | .blockComment body, c :: rest =>
      commentMarks (blankOut c) ++ marksFrom (.blockComment (c :: body)) rest

def marks (source : List Char) : List Mark :=
  marksFrom .code source

@[simp] theorem map_char_commentMarks (blanks : List Char) :
    (commentMarks blanks).map (·.char) = blanks := by
  simp [commentMarks, Function.comp_def]

/-- The marks are those of the characters that blanking writes, one for
each. -/
theorem map_char_marksFrom (region : Region) (offset : Nat) (text : List Char) :
    (marksFrom region text).map (·.char) = (blankFrom region offset text).text := by
  fun_induction blankFrom region offset text with
  | case7 offset c rest ih =>
      by_cases hNewline : c = '\n' <;> simp_all [marksFrom, Blanked.append, blankOut]
  | _ => simp_all [marksFrom, Blanked.append, Blanked.document]

/-! ### The literal a walk is in -/

/-- The literal after a character, whatever brackets are open. -/
def literalAfter : Option (Char × Bool) → Char → Option (Char × Bool)
  | none, c => if isQuote c then some (c, false) else none
  | some (quote, escaped), c =>
      if escaped then some (quote, false)
      else if c == '\\' then some (quote, true)
      else if c == quote then none
      else some (quote, false)

/-- The walk over brackets enters and leaves literals as if there were no
brackets. -/
theorem literal_step {s next : Shape} {c : Char} (h : s.step c = some next) :
    next.literal = literalAfter s.literal c := by
  rcases Shape.step_eq_some_iff.mp h with ⟨quote, escaped, hLiteral, rfl⟩ |
    ⟨hLiteral, hQuote, rfl⟩ | ⟨hLiteral, hQuote, left, -, rfl⟩
  · rw [hLiteral, literalAfter, Shape.stepLiteral]
    cases escaped with
    | true => rfl
    | false => split_ifs <;> simp_all
  · simp [hLiteral, literalAfter, hQuote]
  · simp [hLiteral, literalAfter, hQuote, Shape.code]

/-- The literal a walk has reached depends on no bracket. It can be told
from the characters alone, which is how the two scanners are compared. -/
theorem literal_run {s last : Shape} {text : List Char} (h : s.run text = some last) :
    last.literal = text.foldl literalAfter s.literal := by
  induction text generalizing s with
  | nil =>
      cases h
      rfl
  | cons c rest ih =>
      obtain ⟨next, hStep, hRest⟩ := Option.bind_eq_some_iff.mp h
      rw [List.foldl_cons, ← literal_step hStep]
      exact ih hRest

/-! ### The two passes in step -/

/-- Marks that keep step with a walk which is in the given literal, up to a
newline that ends the literal. The walk is still in it then, while the marks
behind the newline keep step with a walk that is in code. -/
def InStep : Option (Char × Bool) → List Mark → Prop
  | _, [] => True
  | literal, m :: rest =>
      m.literal = literal ∧
        if m.breaksLiteral then literalAfter literal m.char = literal ∧ InStep none rest
        else InStep (literalAfter literal m.char) rest

namespace Region

def literal? : Region → Option (Char × Bool)
  | .literal quote escaped => some (quote, escaped)
  | _ => none

/-- A literal region is opened by a quote. -/
def Sound : Region → Prop
  | .literal quote _ => isQuote quote = true
  | _ => True

end Region

/-- A character of code keeps both walks in step if the rest does from where
the character leads. -/
theorem inStep_code {c : Char} {isComment : Bool} {rest : List Mark}
    (h : InStep (literalAfter none c) rest) : InStep none (⟨c, isComment, none⟩ :: rest) := by
  refine ⟨rfl, ?_⟩
  rw [if_neg (by simp [Mark.breaksLiteral])]
  exact h

/-- Blanks in place of a comment hold no quote, so that they keep the walks
in step. -/
theorem inStep_commentMarks {blanks : List Char} {rest : List Mark}
    (hBlanks : ∀ c ∈ blanks, isQuote c = false) (h : InStep none rest) :
    InStep none (commentMarks blanks ++ rest) := by
  induction blanks with
  | nil => exact h
  | cons c blanks ih =>
      simp only [List.forall_mem_cons] at hBlanks
      have hNext : literalAfter none c = none := by simp [literalAfter, hBlanks.1]
      exact inStep_code (hNext.symm ▸ ih hBlanks.2)

theorem isQuote_of_mem_blankOut {c d : Char} (h : d ∈ blankOut c) : isQuote d = false := by
  unfold blankOut at h
  split at h
  · next hNewline =>
      rw [List.mem_singleton.mp h, eq_of_beq hNewline]
      rfl
  · rw [List.eq_of_mem_replicate h]
    rfl

/-- A literal is left or goes on with the quote that opened it. -/
theorem sound_afterLiteral {quote : Char} (hQuote : isQuote quote = true) (escaped : Bool)
    (c : Char) : (afterLiteral quote escaped c).Sound := by
  unfold afterLiteral
  split_ifs <;> trivial

/-- A character of a literal moves both passes alike, unless it is a newline
that ends the literal for one of them. -/
theorem literal?_afterLiteral {quote c : Char} {escaped : Bool}
    (h : escaped = true ∨ c ≠ '\n') :
    (afterLiteral quote escaped c).literal? = literalAfter (some (quote, escaped)) c := by
  unfold afterLiteral literalAfter
  rcases h with rfl | hNewline
  · rfl
  · cases escaped with
    | true => rfl
    | false => split_ifs <;> simp_all [Region.literal?]

/-- Blanking keeps step with the walk from any region on, as long as no
newline ends a literal for the one and not for the other. -/
theorem inStep_marksFrom {region : Region} {text : List Char} (hRegion : region.Sound) :
    InStep region.literal? (marksFrom region text) := by
  fun_induction marksFrom region text with
  | case1 region => trivial
  | case2 rest ih => exact inStep_commentMarks (by simp [isQuote]) (ih trivial)
  | case3 rest ih => exact inStep_commentMarks (by simp [isQuote]) (ih trivial)
  | case4 c rest _ _ ih =>
      have hNext : (if isQuote c then Region.literal c false else .code).literal? =
          literalAfter none c := by
        dsimp only [literalAfter]
        split <;> rfl
      have hSound : (if isQuote c then Region.literal c false else .code).Sound := by
        split
        · assumption
        · trivial
      rw [hNext] at ih
      exact inStep_code (ih hSound)
  | case5 quote escaped c rest ih =>
      have hRest := ih (sound_afterLiteral hRegion escaped c)
      refine ⟨rfl, ?_⟩
      by_cases hBreaks : c = '\n' ∧ escaped = false
      · obtain ⟨rfl, rfl⟩ := hBreaks
        have hQuote : ('\n' == quote) = false := by
          rw [beq_eq_false_iff_ne]
          rintro rfl
          cases hRegion
        have hCode : afterLiteral quote false '\n' = .code := by simp [afterLiteral]
        rw [hCode] at hRest ⊢
        rw [if_pos (by rfl)]
        exact ⟨by simp [literalAfter, hQuote, Region.literal?], hRest⟩
      · have hStays : escaped = true ∨ c ≠ '\n' := by
          cases escaped
          · exact Or.inr fun hNewline => hBreaks ⟨hNewline, rfl⟩
          · exact Or.inl rfl
        rw [literal?_afterLiteral hStays] at hRest
        rw [if_neg (by simpa [Mark.breaksLiteral] using hBreaks)]
        exact hRest
  | case6 c rest hNewline ih =>
      have hNext : literalAfter none c = none := by
        rw [eq_of_beq hNewline]
        rfl
      exact inStep_code (hNext.symm ▸ ih trivial)
  | case7 c rest _ ih =>
      exact inStep_commentMarks (fun d => isQuote_of_mem_blankOut) (ih trivial)
  | case8 body rest ih => exact inStep_commentMarks (by simp [isQuote]) (ih trivial)
  | case9 body c rest _ ih =>
      exact inStep_commentMarks (fun d => isQuote_of_mem_blankOut) (ih trivial)

/-- A walk over marks in step comes to the literal of the mark behind
them. -/
theorem InStep.append {literal : Option (Char × Bool)} {front back : List Mark}
    (h : InStep literal (front ++ back)) (hFront : ∀ n ∈ front, n.breaksLiteral = false) :
    InStep ((front.map (·.char)).foldl literalAfter literal) back := by
  induction front generalizing literal with
  | nil => exact h
  | cons n front ih =>
      simp only [List.forall_mem_cons] at hFront
      rw [List.cons_append, InStep, hFront.1, if_neg Bool.false_ne_true] at h
      exact ih h.2 hFront.2

end ScriptBindings.Declaration

namespace ScriptBindings

open Declaration ScriptBindings.Bracket

/-- The two passes over a source agree on its literals, up to the first
newline at which blanking ends one: if the walk over the blanked text
reaches a character before that, it is there in the literal that blanking
names, and outside all literals in comments. At that newline both are in one
literal. Behind it blanking goes on in code, while the walk has not left the
literal. -/
theorem literals_agree_until_break (source : List Char) :
    (marks source).map (·.char) = (blankComments source).text ∧
    ∀ front m back k, marks source = front ++ m :: back →
      Cursor.start.run (front.map (·.char)) = .ok k →
      (∀ n ∈ front, n.breaksLiteral = false) →
        k.shape.literal = m.literal ∧
        (m.breaksLiteral = true →
          (∃ next, k.step m.char = .ok next ∧ next.shape.literal = m.literal ∧
            next.inCode = false) ∧
          ∀ n, back.head? = some n → n.literal = none) := by
  refine ⟨map_char_marksFrom .code 0 source, fun front m back k hMarks hRun hFront => ?_⟩
  have hInStep : InStep none (front ++ m :: back) := by
    rw [← hMarks]
    have hCode : Region.code.Sound := trivial
    exact inStep_marksFrom hCode
  have hBack := hInStep.append hFront
  have hLiteral : k.shape.literal = (front.map (·.char)).foldl literalAfter none :=
    literal_run (Cursor.run_ok hRun)
  rw [← hLiteral] at hBack
  refine ⟨hBack.1.symm, fun hBreaks => ⟨?_, ?_⟩⟩
  · have hStays := hBack.2
    rw [if_pos hBreaks] at hStays
    obtain ⟨l, hl⟩ : ∃ l, m.literal = some l := by
      cases hNone : m.literal with
      | none => simp [Mark.breaksLiteral, hNone] at hBreaks
      | some l => exact ⟨l, rfl⟩
    have hStep : k.shape.step m.char = some (k.shape.stepLiteral l.1 l.2 m.char) := by
      rw [Shape.step, ← hBack.1, hl]
    obtain ⟨next, hNext, hShape⟩ := Cursor.step_of_shape hStep
    have hSame : next.shape.literal = m.literal := by
      rw [literal_step (Cursor.step_ok hNext), hStays.1, hBack.1]
    refine ⟨next, hNext, hSame, ?_⟩
    rw [hl] at hSame
    cases hOpen : next.literal with
    | none => simp [Cursor.shape, hOpen] at hSame
    | some entered => simp [Cursor.inCode, hOpen]
  · intro n hn
    have hRest := hBack.2
    rw [if_pos hBreaks] at hRest
    obtain ⟨rest, rfl⟩ := List.head?_eq_some_iff.mp hn
    exact hRest.2.1

/-- The slash of a literal that holds the opener of a comment. -/
theorem literals_agree_in_quotes :
    let source := "'/*' // b".toList
    ∃ front m back k, marks source = front ++ m :: back ∧
      Cursor.start.run (front.map (·.char)) = .ok k ∧ (∀ n ∈ front, n.breaksLiteral = false) ∧
      m.literal = some ('\'', false) ∧ k.shape.literal = m.literal := by
  intro source
  let front : List Mark := [⟨'\'', false, none⟩]
  let m : Mark := ⟨'/', false, some ('\'', false)⟩
  have hMarks : marks source = front ++ m :: (marks source).drop 2 := by decide +kernel
  have hRun : Cursor.start.run (front.map (·.char)) =
      .ok ⟨1, [], '\x00', some ⟨'\'', 0, false⟩⟩ := rfl
  have hFront : ∀ n ∈ front, n.breaksLiteral = false := by decide
  exact ⟨front, m, _, _, hMarks, hRun, hFront, rfl,
    ((literals_agree_until_break source).2 front m _ _ hMarks hRun hFront).1⟩

/-- A literal of two lines that the walk passes over whole: what blanking
takes for a comment lies inside it, and what blanking takes for the start of
a literal ends it. -/
theorem literals_disagree :
    let source := "\x60\n/**/\x60".toList
    check (blankComments source).text = .ok () ∧
      (∃ front m back k, marks source = front ++ m :: back ∧
        Cursor.start.run (front.map (·.char)) = .ok k ∧ m.isComment = true ∧
        m.literal = none ∧ k.shape.literal = some ('\x60', false)) ∧
      ∃ front m back k, marks source = front ++ m :: back ∧
        Cursor.start.run (front.map (·.char)) = .ok k ∧ m.isComment = false ∧
        m.literal = none ∧ k.shape.literal = some ('\x60', false) := by
  intro source
  have hSplit (i : Nat) (m : Mark) (h : (marks source).drop i = m :: (marks source).drop (i + 1)) :
      marks source = (marks source).take i ++ m :: (marks source).drop (i + 1) := by
    rw [← h, List.take_append_drop]
  refine ⟨by decide +kernel, ?_, ?_⟩
  · exact ⟨_, ⟨' ', true, none⟩, _, ⟨2, [], '\x00', some ⟨'\x60', 0, false⟩⟩,
      hSplit 2 _ (by decide +kernel), by decide +kernel, rfl, rfl, rfl⟩
  · exact ⟨_, ⟨'\x60', false, none⟩, _, ⟨6, [], '\x00', some ⟨'\x60', 0, false⟩⟩,
      hSplit 6 _ (by decide +kernel), by decide +kernel, rfl, rfl, rfl⟩

end ScriptBindings
