import ScriptBindings.Declaration.Statement
import ScriptBindings.Proofs.Bracket.Grouping
import ScriptBindings.Proofs.Bracket.Outside
import ScriptBindings.Proofs.Text.Trimming

/-! How a source is divided into statements, said of its text alone. A
statement ends at the first `;` outside all brackets, or behind the first
closing brace there that nothing continues. Between statements there are
only blanks and `;`. The walk finds exactly these statements. -/
namespace ScriptBindings.Declaration

open Text Outcomes ScriptBindings.Bracket

variable {front pending text body block blanks rest : List Char} {found : List Span}
  {s next : Shape} {p : Progress} {c : Char} {offset : Nat}

/-! ### Statements as texts -/

/-- The last character is a brace that closes a block outside all other
brackets. -/
structure ClosesBlock (block : List Char) : Prop where
  balanced : Balanced block
  last : block.getLast? = some '\x7d'

/-- Only blanks follow a block. -/
def EndsInBlock (text : List Char) : Prop :=
  ∃ block blanks, text = block ++ blanks ∧ ClosesBlock block ∧ ∀ c ∈ blanks, isBlank c = true

/-- Every block that something follows is continued. -/
def Unsevered (text : List Char) : Prop :=
  ∀ block rest c, text = block ++ rest → ClosesBlock block → (trimStart rest).head? = some c →
    continuesBlock c = true

/-- Nothing in the text ends the statement that begins with it. -/
structure Undivided (body : List Char) : Prop where
  head : ∃ c, body.head? = some c ∧ isBlank c = false
  lacks : Lacks [';'] body
  unsevered : Unsevered body

/-- The statement is over where `rest` begins. -/
def EndsBefore (body rest : List Char) : Prop :=
  rest = [] ∨ rest.head? = some ';' ∨
    (ClosesBlock body ∧ ∃ c, (trimStart rest).head? = some c ∧ continuesBlock c = false)

/-- What may stand between statements. -/
def isGap (c : Char) : Bool :=
  isBlank c || c == ';'

/-- The statements of a text that begins at `offset`. -/
inductive Divided : Nat → List Char → List Span → Prop where
  | nil {offset : Nat} : Divided offset [] []
  | gap {offset : Nat} {c : Char} {rest : List Char} {found : List Span}
      (hGap : isGap c = true) (later : Divided (offset + c.utf8Size) rest found) :
      Divided offset (c :: rest) found
  | statement {offset : Nat} {body rest : List Char} {found : List Span}
      (hBody : Undivided body) (hBalanced : Balanced body) (hEnd : EndsBefore body rest)
      (later : Divided (offset + byteCount body) rest found) :
      Divided offset (body ++ rest) (⟨offset, offset + byteCount body⟩ :: found)

/-- A block is closed by its last character, which may be tested. -/
theorem closesBlock_iff : ClosesBlock block ↔ Balanced block ∧ block.getLast? = some '\x7d' :=
  ⟨fun h => ⟨h.balanced, h.last⟩, fun h => ⟨h.1, h.2⟩⟩

instance : DecidablePred ClosesBlock := fun _ => decidable_of_iff _ closesBlock_iff.symm

/-- That a text ends in a block may be tested at each of its places. -/
theorem endsInBlock_iff : EndsInBlock text ↔
    ∃ n ≤ text.length, ClosesBlock (text.take n) ∧ (text.drop n).all isBlank = true := by
  constructor
  · rintro ⟨block, blanks, rfl, hBlock, hBlanks⟩
    exact ⟨block.length, by simp, by simpa using hBlock, by simpa using hBlanks⟩
  · rintro ⟨n, -, hBlock, hBlanks⟩
    exact ⟨text.take n, text.drop n, (List.take_append_drop n text).symm, hBlock,
      List.all_eq_true.mp hBlanks⟩

instance : DecidablePred EndsInBlock := fun _ => decidable_of_iff _ endsInBlock_iff.symm

/-- That no block of a text ends it may be tested at each place as well. -/
theorem unsevered_iff : Unsevered text ↔ ∀ n ≤ text.length, ClosesBlock (text.take n) →
    (trimStart (text.drop n)).head?.all continuesBlock = true := by
  constructor
  · intro h n _ hBlock
    rw [Option.all_eq_true]
    exact fun c hHead => h _ _ c (List.take_append_drop n text).symm hBlock hHead
  · rintro h block rest c rfl hBlock hHead
    have hNext := h block.length (by simp) (by simpa using hBlock)
    rw [List.drop_left, Option.all_eq_true] at hNext
    exact hNext c hHead

instance : DecidablePred Unsevered := fun _ => decidable_of_iff _ unsevered_iff.symm

theorem ClosesBlock.run (h : ClosesBlock block) : Shape.start.run block = some .start := by
  simpa [Shape.start, h.last] using h.balanced.run []

theorem ClosesBlock.run_blanks (h : ClosesBlock block) (hBlanks : ∀ c ∈ blanks, isBlank c = true) :
    Shape.start.run (block ++ blanks) = some .start := by
  rw [Shape.run_append, h.run, Option.bind_some]
  exact Shape.run_plain fun c hc => isPlain_of_isBlank (hBlanks c hc)

theorem isGap_of_isBlank (h : isBlank c = true) : isGap c = true := by
  rw [isGap, h, Bool.true_or]

theorem isPlain_of_isGap (h : isGap c = true) : isPlain c = true := by
  rcases Bool.or_eq_true_iff.mp h with hBlank | hSemicolon
  · exact isPlain_of_isBlank hBlank
  · rw [beq_iff_eq.mp hSemicolon]
    rfl

/-- Of what may stand between statements only the semicolon is visible. -/
theorem eq_semicolon_of_isGap (h : isGap c = true) (hVisible : isBlank c = false) : c = ';' := by
  simpa [isGap, hVisible] using h

/-- Blanks in front of a text do not change how it is divided. -/
theorem Divided.behind_blanks (hBlanks : ∀ c ∈ blanks, isBlank c = true)
    (h : Divided (offset + byteCount blanks) rest found) : Divided offset (blanks ++ rest) found := by
  induction blanks generalizing offset with
  | nil => exact h
  | cons c blanks ih =>
      obtain ⟨hBlank, hBlanks⟩ := List.forall_mem_cons.mp hBlanks
      rw [byteCount_cons, ← Nat.add_assoc] at h
      exact .gap (isGap_of_isBlank hBlank) (ih hBlanks h)

/-! ### One more character -/

/-- A text ends in a block after a character if it did and the character is
blank, or if the character closes the block. -/
theorem endsInBlock_of_concat (h : EndsInBlock (text ++ [c])) :
    (isBlank c = true ∧ EndsInBlock text) ∨ (c = '\x7d' ∧ Balanced (text ++ [c])) := by
  obtain ⟨block, blanks, hText, hBlock, hBlanks⟩ := h
  rcases cases_of_concat_eq_append hText with ⟨rfl, rfl⟩ | ⟨blanks, rfl, rfl⟩
  · have hLast := hBlock.last
    rw [List.getLast?_concat] at hLast
    exact Or.inr ⟨Option.some.inj hLast, hBlock.balanced⟩
  · rw [List.forall_mem_append] at hBlanks
    exact Or.inl ⟨hBlanks.2 c List.mem_cons_self, block, blanks, rfl, hBlock, hBlanks.1⟩

theorem ClosesBlock.ne_nil (h : ClosesBlock block) : block ≠ [] := by
  rintro rfl
  cases h.last

theorem unsevered_nil : Unsevered [] := by
  intro block rest c hText hBlock
  exact absurd (List.append_eq_nil_iff.mp hText.symm).1 hBlock.ne_nil

theorem not_endsInBlock_nil : ¬EndsInBlock [] := by
  rintro ⟨block, blanks, hText, hBlock, -⟩
  exact hBlock.ne_nil (List.append_eq_nil_iff.mp hText.symm).1

theorem Unsevered.of_append (h : Unsevered (text ++ rest)) : Unsevered text := by
  rintro block behind c rfl hBlock hHead
  refine h block (behind ++ rest) c (List.append_assoc _ _ _) hBlock ?_
  rw [head?_trimStart_append (not_blank_of_head? hHead), hHead]

/-- A character may be added to a text that ends in a block if it is blank
or continues the statement. -/
theorem Unsevered.concat (h : Unsevered text)
    (hNext : EndsInBlock text → isBlank c = true ∨ continuesBlock c = true) :
    Unsevered (text ++ [c]) := by
  intro block rest d hText hBlock hHead
  rcases cases_of_concat_eq_append hText with ⟨rfl, -⟩ | ⟨rest, rfl, rfl⟩
  · cases hHead
  · -- either something visible of the old text follows the block, or `c` does
    by_cases hRest : ∀ b ∈ rest, isBlank b = true
    · rw [trimStart_append_of_blank hRest] at hHead
      cases hBlank : isBlank c with
      | true => simp [trimStart, hBlank] at hHead
      | false =>
          rw [trimStart_eq_self (by simpa using hBlank)] at hHead
          cases hHead
          exact (hNext ⟨block, rest, rfl, hBlock, hRest⟩).resolve_left (by simp [hBlank])
    · rw [head?_trimStart_append hRest] at hHead
      exact h block rest d rfl hBlock hHead

namespace Undivided

theorem ne_nil (h : Undivided body) : body ≠ [] := by
  rintro rfl
  obtain ⟨c, hHead, -⟩ := h.head
  cases hHead

/-- A statement does not begin with what stands between statements. -/
theorem first {behind : List Char} (h : Undivided body) (hText : c :: rest = body ++ behind) :
    isGap c = false := by
  obtain ⟨d, tail, rfl⟩ := List.exists_cons_of_ne_nil h.ne_nil
  cases hText
  obtain ⟨e, hHead, hVisible⟩ := h.head
  cases hHead
  rw [Bool.eq_false_iff]
  intro hGap
  obtain rfl := eq_semicolon_of_isGap hGap hVisible
  exact h.lacks [] tail rfl .nil

/-- A front of a text that nothing divides is not divided either. -/
theorem of_append (h : Undivided (body ++ rest)) (hNil : body ≠ []) : Undivided body where
  head := by
    obtain ⟨c, hHead, hVisible⟩ := h.head
    exact ⟨c, by rwa [List.head?_append_of_ne_nil _ hNil] at hHead, hVisible⟩
  lacks := h.lacks.of_append
  unsevered := h.unsevered.of_append

/-- A character may be added unless it is a semicolon at the top or severs
the text behind a block. -/
theorem concat (h : Undivided body) (hSemicolon : c = ';' → ¬Balanced body)
    (hNext : EndsInBlock body → isBlank c = true ∨ continuesBlock c = true) :
    Undivided (body ++ [c]) where
  head := by
    obtain ⟨d, hHead, hVisible⟩ := h.head
    exact ⟨d, by rw [List.head?_append, hHead, Option.some_or], hVisible⟩
  lacks := h.lacks.concat hSemicolon
  unsevered := h.unsevered.concat hNext

/-- A statement may begin with any visible character but the semicolon. -/
theorem singleton (hVisible : isBlank c = false) (hSemicolon : c ≠ ';') : Undivided [c] where
  head := ⟨c, rfl, hVisible⟩
  lacks := .of_not_mem List.mem_cons_self (by simpa using hSemicolon.symm)
  unsevered := unsevered_nil.concat fun h => absurd h not_endsInBlock_nil

end Undivided

/-! ### The walk over the statements -/

/-- What the progress of a walk says about the text `pending` that is read
but not yet divided, which begins behind `front`: there is none, or it is a
statement that goes on, or one that ends in a block and whose next character
decides. -/
inductive Progress.Tracks (front : List Char) : List Char → Shape → Progress → Prop where
  | idle : Tracks front [] .start .none
  | reading {body : List Char} {s : Shape} (hBody : Undivided body)
      (hRun : Shape.start.run body = some s) (hOpen : ¬EndsInBlock body) :
      Tracks front body s ⟨some (byteCount front), .none⟩
  | behindBlock {block blanks : List Char} (hBody : Undivided (block ++ blanks))
      (hBlock : ClosesBlock block) (hBlanks : ∀ c ∈ blanks, isBlank c = true) :
      Tracks front (block ++ blanks) .start
        ⟨some (byteCount front), some (byteCount front + byteCount block)⟩

/-- The same when the next character `c` is known not to end the statement
as its block. -/
inductive Progress.Goes (front : List Char) (c : Char) : List Char → Shape → Progress → Prop where
  | idle : Goes front c [] .start .none
  | reading {body : List Char} {s : Shape} (hBody : Undivided body)
      (hRun : Shape.start.run body = some s)
      (hNext : EndsInBlock body → continuesBlock c = true) :
      Goes front c body s ⟨some (byteCount front), .none⟩

/-- However the text behind the later place is divided, with the spans
`emitted` in front this divides the text behind the earlier place. -/
def Leads (front text later text' : List Char) (emitted : List Span) : Prop :=
  ∀ found, Divided (byteCount later) text' found → Divided (byteCount front) text (emitted ++ found)

/-- Outside literals no bracket is open exactly behind a balanced text. -/
theorem balanced_of_depth {k : Cursor} (hRun : Shape.start.run text = some k.shape)
    (hCode : k.inCode = true) (hDepth : k.depth = 0) : Balanced text := by
  have hTop : k.shape.atTop = true := by
    rw [k.shape_atTop, Cursor.atTop, hCode]
    simpa [Cursor.depth] using hDepth
  exact balanced_iff.mpr ⟨_, hRun.trans (congrArg some (Shape.atTop_iff.mp hTop))⟩

/-- Behind a balanced text no bracket is open for the cursor. -/
theorem depth_of_balanced {k : Cursor} (hRun : Shape.start.run text = some k.shape)
    (h : Balanced text) : k.depth = 0 := by
  obtain ⟨arrow, hCode⟩ := balanced_iff.mp h
  rw [hRun] at hCode
  rw [← k.length_shape_kinds, Option.some.inj hCode]
  rfl

/-- A closing brace behind which nothing is open leads back to where a walk
begins. -/
theorem start_of_closed {k reached : Cursor} (hCode : k.inCode = true)
    (hStep : k.step '\x7d' = .ok reached) (hDepth : reached.depth = 0) :
    reached.shape = .start := by
  have hLiteral : k.shape.literal = none := by simpa [Cursor.shape, Cursor.inCode] using hCode
  have hKinds : reached.shape.kinds = [] := by
    rw [← List.length_eq_zero_iff, reached.length_shape_kinds, hDepth]
  rcases Shape.step_eq_some_iff.mp (Cursor.step_ok hStep) with ⟨quote, escaped, hIn, -⟩ |
    ⟨-, hQuote, -⟩ | ⟨-, -, left, -, hNext⟩
  · rw [hLiteral] at hIn
    cases hIn
  · cases hQuote
  · rw [hNext] at hKinds ⊢
    rw [show left = [] from hKinds]
    rfl

/-- A brace behind which the text is balanced closes the one bracket that is
open. -/
theorem depth_of_closed {k reached : Cursor} (hCode : k.inCode = true)
    (hStep : k.step '\x7d' = .ok reached) (hDepth : reached.depth = 0) : k.depth = 1 := by
  have hNil : reached.shape.kinds = [] := by
    rw [← List.length_eq_zero_iff, reached.length_shape_kinds, hDepth]
  rcases Shape.step_kinds_eq_nil (Cursor.step_ok hStep) hNil with hKinds | ⟨kind, hShape, -⟩
  · -- with nothing open the brace would be at fault
    have hLiteral : k.shape.literal = none := by simpa [Cursor.shape, Cursor.inCode] using hCode
    have hNext := Cursor.step_ok hStep
    have hNone (arrow : Bool) : (Shape.code [] arrow).step '\x7d' = none := by cases arrow <;> rfl
    rw [Shape.eq_code hKinds hLiteral, hNone] at hNext
    cases hNext
  · rw [← k.length_shape_kinds, hShape]
    rfl

namespace Progress

/-- Blanks and the characters of a literal leave the progress alone. -/
theorem Tracks.skip (h : Tracks front pending s p) (hStep : s.step c = some next)
    (hSkip : s.literal = .none → isBlank c = true) (rest : List Char) :
    ∃ later pending', later ++ pending' = front ++ pending ++ [c] ∧
      Tracks later pending' next p ∧
      Leads front (pending ++ c :: rest) later (pending' ++ rest) [] := by
  have hStart (h : Shape.start.step c = some next) (hBlank : isBlank c = true) : next = .start := by
    rw [Shape.start, Shape.step_plain (isPlain_of_isBlank hBlank)] at h
    exact (Option.some.inj h).symm
  cases h with
  | idle =>
      have hBlank := hSkip rfl
      rw [hStart hStep hBlank]
      refine ⟨front ++ [c], [], by simp, .idle, fun found hFound => ?_⟩
      rw [byteCount_append] at hFound
      exact .gap (isGap_of_isBlank hBlank) (by simpa using hFound)
  | reading hBody hRun hOpen =>
      have hBalanced {last : List Char} (h : Balanced (pending ++ last))
          (hLast : ∀ d ∈ last, isQuote d = false) : isBlank c = true := by
        obtain ⟨kinds, arrow, -, hCode, -⟩ := h.exists_code hLast
        rw [hRun] at hCode
        exact hSkip (congrArg Shape.literal (Option.some.inj hCode))
      refine ⟨front, pending ++ [c], (List.append_assoc _ _ _).symm, .reading ?_ ?_ ?_,
        fun found hFound => by simpa using hFound⟩
      · refine hBody.concat ?_ fun hEnds => absurd hEnds hOpen
        rintro rfl hNow
        rw [← List.append_nil pending] at hNow
        cases hBalanced hNow (by simp)
      · rw [Shape.run_append, hRun, Option.bind_some, Shape.run_singleton, hStep]
      · intro hEnds
        rcases endsInBlock_of_concat hEnds with ⟨-, hBefore⟩ | ⟨rfl, hNow⟩
        · exact hOpen hBefore
        · cases hBalanced hNow (List.forall_mem_singleton.mpr rfl)
  | @behindBlock block blanks hBody hBlock hBlanks =>
      have hBlank := hSkip rfl
      rw [hStart hStep hBlank]
      refine ⟨front, block ++ (blanks ++ [c]), by simp, .behindBlock ?_ hBlock ?_,
        fun found hFound => by simpa using hFound⟩
      · rw [← List.append_assoc]
        refine hBody.concat ?_ fun _ => Or.inl hBlank
        rintro rfl
        cases hBlank
      · exact List.forall_mem_append.mpr ⟨hBlanks, List.forall_mem_singleton.mpr hBlank⟩

/-- A character that is not blank ends the statement with its block or
continues it. -/
theorem Tracks.endBlock (h : Tracks front pending s p) (hVisible : isBlank c = false)
    (rest : List Char) :
    ∃ later pending', later ++ pending' = front ++ pending ∧
      Goes later c pending' s (p.endBlock c).2 ∧
      Leads front (pending ++ c :: rest) later (pending' ++ c :: rest) (p.endBlock c).1.toList := by
  cases h with
  | idle => exact ⟨front, [], rfl, .idle, fun found hFound => hFound⟩
  | reading hBody hRun hOpen =>
      exact ⟨front, pending, rfl, .reading hBody hRun fun hEnds => absurd hEnds hOpen,
        fun found hFound => hFound⟩
  | @behindBlock block blanks hBody hBlock hBlanks =>
      simp only [Progress.endBlock]
      split
      · next hContinues =>
          exact ⟨front, block ++ blanks, rfl,
            .reading hBody (hBlock.run_blanks hBlanks) fun _ => hContinues,
            fun found hFound => hFound⟩
      · next hContinues =>
          rw [Bool.not_eq_true] at hContinues
          refine ⟨front ++ (block ++ blanks), [], List.append_nil _, .idle, fun found hFound => ?_⟩
          have hHead : (trimStart (blanks ++ c :: rest)).head? = some c := by
            rw [trimStart_append_of_blank hBlanks,
              trimStart_eq_self (by simpa using hVisible), List.head?_cons]
          rw [byteCount_append, byteCount_append, ← Nat.add_assoc] at hFound
          rw [List.append_assoc]
          exact .statement (hBody.of_append hBlock.ne_nil) hBlock.balanced
            (Or.inr (Or.inr ⟨hBlock, c, hHead, hContinues⟩)) (hFound.behind_blanks hBlanks)

/-- The pending text has been read from the start of the statement on. -/
theorem Goes.run (h : Goes front c pending s p) : Shape.start.run pending = some s := by
  cases h with
  | idle => rfl
  | reading _ hRun _ => exact hRun

/-- The statement that is going on begins where its pending text does. -/
theorem Goes.start_eq (h : Goes front c pending s p) :
    p.start.getD (byteCount (front ++ pending)) = byteCount front := by
  cases h with
  | idle => rw [List.append_nil]; rfl
  | reading => rfl

/-- Another visible character may be added to the statement unless it ends
it. -/
theorem Goes.concat (h : Goes front c pending s p) (hVisible : isBlank c = false)
    (hSemicolon : c = ';' → ¬Balanced pending) : Undivided (pending ++ [c]) := by
  cases h with
  | idle => exact .singleton hVisible fun hc => hSemicolon hc .nil
  | reading hBody _ hNext => exact hBody.concat hSemicolon fun hEnds => Or.inr (hNext hEnds)

/-- A character that ends no statement makes the one that is read longer. If
it closes a block, the next character decides. -/
theorem Goes.grow {k reached : Cursor} (h : Goes front c pending k.shape p)
    (hVisible : isBlank c = false) (hOffset : k.offset = byteCount (front ++ pending))
    (hCode : k.inCode = true) (hStep : k.step c = .ok reached) (hEnd : ¬(k.depth = 0 ∧ c = ';')) :
    Tracks front (pending ++ [c]) reached.shape
      { start := some (p.start.getD k.offset)
        blockEnd := if c == '\x7d' && k.depth == 1 && reached.depth == 0 then some (k.offset + 1)
          else .none } := by
  have hRun : Shape.start.run (pending ++ [c]) = some reached.shape := by
    rw [Shape.run_append, h.run, Option.bind_some, Shape.run_singleton, Cursor.step_ok hStep]
  have hBody : Undivided (pending ++ [c]) :=
    h.concat hVisible fun hc hBalanced => hEnd ⟨depth_of_balanced h.run hBalanced, hc⟩
  rw [hOffset, h.start_eq]
  split
  · next hBlock =>
      simp only [Bool.and_eq_true, beq_iff_eq] at hBlock
      obtain ⟨⟨rfl, -⟩, hDepth⟩ := hBlock
      have hTop := start_of_closed hCode hStep hDepth
      rw [hTop] at hRun ⊢
      have hCloses : ClosesBlock (pending ++ ['\x7d']) :=
        ⟨balanced_iff.mpr ⟨false, hRun⟩, List.getLast?_concat⟩
      have hTracks := @Tracks.behindBlock front _ [] (by rwa [List.append_nil]) hCloses (by simp)
      have hStop : byteCount front + byteCount (pending ++ ['\x7d']) =
          byteCount (front ++ pending) + 1 := by
        rw [byteCount_append, byteCount_append, ← Nat.add_assoc]
        rfl
      rwa [List.append_nil, hStop] at hTracks
  · next hOther =>
      refine .reading hBody hRun fun hEnds => hOther ?_
      rcases endsInBlock_of_concat hEnds with ⟨hBlank, -⟩ | ⟨rfl, hBalanced⟩
      · rw [hVisible] at hBlank
        cases hBlank
      · have hReached := depth_of_balanced hRun hBalanced
        simp [hReached, depth_of_closed hCode hStep hReached]

/-- A semicolon at the top ends the statement, which is emitted with the
extent of its pending text. -/
theorem Goes.close (h : Goes front ';' pending s p) (hBalanced : Balanced pending)
    (rest : List Char) :
    Leads front (pending ++ ';' :: rest) (front ++ pending ++ [';']) rest
      (p.start.map fun start => ⟨start, byteCount (front ++ pending)⟩).toList := by
  intro found hFound
  rw [byteCount_append] at hFound
  cases h with
  | idle =>
      rw [List.append_nil] at hFound
      exact .gap rfl hFound
  | reading hBody _ _ =>
      rw [byteCount_append] at hFound ⊢
      exact .statement hBody hBalanced (Or.inr (Or.inl rfl)) (.gap rfl hFound)

/-- Taking in a character outside literals ends the statement or makes it
longer. -/
theorem Goes.take {k reached : Cursor} (h : Goes front c pending k.shape p)
    (hVisible : isBlank c = false) (hOffset : k.offset = byteCount (front ++ pending))
    (hCode : k.inCode = true) (hStep : k.step c = .ok reached) (rest : List Char) :
    ∃ later pending', later ++ pending' = front ++ pending ++ [c] ∧
      Tracks later pending' reached.shape (p.take k.offset c k.depth reached.depth).2 ∧
      Leads front (pending ++ c :: rest) later (pending' ++ rest)
        (p.take k.offset c k.depth reached.depth).1.toList := by
  unfold Progress.take
  split
  · next hEnd =>
      simp only [Bool.and_eq_true, beq_iff_eq] at hEnd
      obtain ⟨hDepth, rfl⟩ := hEnd
      have hBalanced := balanced_of_depth h.run hCode hDepth
      have hReached : reached.shape = .start := by
        obtain ⟨arrow, hRun⟩ := balanced_iff.mp hBalanced
        have hNext := Cursor.step_ok hStep
        rw [Option.some.inj (h.run.symm.trans hRun), Shape.step_plain (by decide)] at hNext
        exact (Option.some.inj hNext).symm
      rw [hReached, hOffset]
      exact ⟨front ++ pending ++ [';'], [], List.append_nil _, .idle, h.close hBalanced rest⟩
  · next hEnd =>
      simp only [Bool.and_eq_true, beq_iff_eq] at hEnd
      exact ⟨front, pending ++ [c], (List.append_assoc _ _ _).symm,
        h.grow hVisible hOffset hCode hStep hEnd, fun found hFound => by simpa using hFound⟩

/-- At the end of the source the statement that is being read is whole. -/
theorem Tracks.stop (h : Tracks front pending s p) (hTop : s.atTop = true) :
    Divided (byteCount front) pending
      (p.start.map fun start => ⟨start, byteCount (front ++ pending)⟩).toList := by
  have hWhole {body : List Char} (hBody : Undivided body) (hRun : Shape.start.run body = some s) :
      Divided (byteCount front) body [⟨byteCount front, byteCount (front ++ body)⟩] := by
    have hBalanced : Balanced body :=
      balanced_iff.mpr ⟨_, hRun.trans (congrArg some (Shape.atTop_iff.mp hTop))⟩
    have hAll : Divided (byteCount front) (body ++ []) _ :=
      .statement hBody hBalanced (Or.inl rfl) .nil
    rwa [List.append_nil, ← byteCount_append] at hAll
  cases h with
  | idle => exact .nil
  | reading hBody hRun _ => exact hWhole hBody hRun
  | behindBlock hBody hBlock hBlanks => exact hWhole hBody (hBlock.run_blanks hBlanks)

end Progress

/-- The spans found from here on divide the text that is not yet divided. -/
theorem divided_of_spansFrom {k : Cursor} (hTracks : p.Tracks front pending k.shape)
    (hOffset : k.offset = byteCount (front ++ pending)) (h : spansFrom k p rest = .ok found) :
    Divided (byteCount front) (pending ++ rest) found := by
  induction rest generalizing k p front pending found with
  | nil =>
      obtain ⟨_, hFinish, h⟩ := bind_ok h
      cases h
      have hTop := k.shape_atTop.trans (Cursor.finish_ok_iff.mp hFinish)
      rw [hOffset, List.append_nil]
      exact hTracks.stop hTop
  | cons c rest ih =>
      obtain ⟨reached, hStep, h⟩ := bind_ok h
      have hReached : reached.offset = byteCount (front ++ pending ++ [c]) := by
        rw [step_offset hStep, hOffset, byteCount_append _ [c], byteCount_cons, byteCount_nil,
          Nat.add_zero]
      split at h
      · next hTaken =>
          obtain ⟨later, hLater, h⟩ := bind_ok h
          cases h
          simp only [Bool.and_eq_true, Bool.not_eq_true'] at hTaken
          obtain ⟨hCode, hVisible⟩ := hTaken
          obtain ⟨middle, body, hMiddle, hGoes, hEnded⟩ := hTracks.endBlock hVisible rest
          obtain ⟨behind, body', hBehind, hTracks', hClosed⟩ :=
            hGoes.take hVisible (hMiddle ▸ hOffset) hCode hStep rest
          rw [hMiddle] at hBehind
          rw [List.append_assoc]
          exact hEnded _ (hClosed _ (ih hTracks' (hBehind ▸ hReached) hLater))
      · next hSkipped =>
          have hSkip : k.shape.literal = none → isBlank c = true := by
            intro hLiteral
            have hCode : k.inCode = true := by
              simpa [Cursor.shape, Cursor.inCode] using hLiteral
            simpa [hCode] using hSkipped
          obtain ⟨behind, body, hBehind, hTracks', hLeads⟩ :=
            hTracks.skip (Cursor.step_ok hStep) hSkip rest
          exact hLeads _ (ih hTracks' (hBehind ▸ hReached) h)

/-- Finding spans walks the whole text. -/
theorem map_spansFrom (k : Cursor) (p : Progress) (text : List Char) :
    (spansFrom k p text).map (fun _ => ()) = k.run text >>= Cursor.finish := by
  induction text generalizing k p with
  | nil =>
      rw [spansFrom, Cursor.run, ok_bind]
      cases k.finish <;> rfl
  | cons c rest ih =>
      rw [spansFrom, Cursor.run]
      cases k.step c with
      | error fault => rfl
      | ok next =>
          rw [ok_bind, ok_bind]
          split
          · obtain ⟨ended, continued⟩ := p.endBlock c
            dsimp only
            rw [← ih next (continued.take k.offset c k.depth next.depth).2]
            cases spansFrom next (continued.take k.offset c k.depth next.depth).2 rest <;> rfl
          · exact ih next p

/-- Dividing a text fails as checking its brackets does, and with the same
fault. -/
theorem map_spans (text : List Char) : (spans text).map (fun _ => ()) = check text :=
  map_spansFrom .start .none text

/-! ### Every text is divided in one way -/

/-- Behind a statement the walk goes on as from the start. -/
theorem EndsBefore.append_iff {before after : List Char} (h : EndsBefore body (before ++ after))
    (hBody : Balanced body) : Balanced (body ++ before) ↔ Balanced before := by
  refine hBody.append_iff_of_meets fun hLast c hHead => ?_
  have hFirst : (before ++ after).head? = some c := by rw [List.head?_append, hHead, Option.some_or]
  rcases h with hNil | hSemicolon | ⟨hBlock, -⟩
  · rw [hNil] at hFirst
    cases hFirst
  · cases hFirst.symm.trans hSemicolon
    decide
  · cases hLast.symm.trans hBlock.last

/-- A longer statement would not have been cut. -/
theorem EndsBefore.not_undivided {more after : List Char} (h : EndsBefore body (more ++ after))
    (hBody : Balanced body) (hMore : more ≠ []) (hEnd : EndsBefore (body ++ more) after) :
    ¬Undivided (body ++ more) := by
  intro hLonger
  obtain ⟨d, behind, rfl⟩ := List.exists_cons_of_ne_nil hMore
  rcases h with hNil | hSemicolon | ⟨hBlock, c, hHead, hStops⟩
  · cases hNil
  · cases hSemicolon
    exact hLonger.lacks body behind rfl hBody
  · by_cases hBlanks : ∀ b ∈ d :: behind, isBlank b = true
    · -- the longer statement would end in the blanks behind the block
      rw [trimStart_append_of_blank hBlanks] at hHead
      rcases hEnd with hNil | hSemicolon | ⟨hOther, -⟩
      · rw [hNil] at hHead
        cases hHead
      · rw [trimStart_eq_self (by rw [hSemicolon]; rintro b ⟨⟩; rfl), hSemicolon] at hHead
        cases hHead
        cases hStops
      · have hLast := hOther.last
        rw [List.getLast?_append_of_ne_nil _ hMore] at hLast
        cases hBlanks _ (List.mem_of_getLast? hLast)
    · rw [head?_trimStart_append hBlanks] at hHead
      rw [hLonger.unsevered body _ c rfl hBlock hHead] at hStops
      cases hStops

namespace Divided

theorem balanced (h : Divided offset text found) : Balanced text := by
  induction h with
  | nil => exact .nil
  | gap hGap _ ih =>
      have hPlain : ∀ d ∈ [_], isPlain d = true :=
        List.forall_mem_singleton.mpr (isPlain_of_isGap hGap)
      exact (Balanced.plain_append_iff hPlain).mpr ih
  | @statement _ body rest _ _ hBalanced hEnd _ ih =>
      rw [← List.append_nil rest] at hEnd
      exact (hEnd.append_iff hBalanced).mpr ih

theorem eq_nil (h : Divided offset [] found) : found = [] := by
  generalize hText : ([] : List Char) = text at h
  cases h with
  | nil => rfl
  | gap => cases hText
  | statement hBody => exact absurd (List.append_eq_nil_iff.mp hText.symm).1 hBody.ne_nil

theorem of_gap (h : Divided offset (c :: rest) found) (hGap : isGap c = true) :
    Divided (offset + c.utf8Size) rest found := by
  generalize hText : c :: rest = text at h
  cases h with
  | nil => cases hText
  | gap _ later =>
      cases hText
      exact later
  | statement hBody =>
      rw [hBody.first hText] at hGap
      cases hGap

/-- A statement in front is the first that is found. -/
theorem of_statement (h : Divided offset (body ++ rest) found) (hBody : Undivided body)
    (hBalanced : Balanced body) (hEnd : EndsBefore body rest) :
    ∃ later, found = ⟨offset, offset + byteCount body⟩ :: later ∧
      Divided (offset + byteCount body) rest later := by
  obtain ⟨c, tail, rfl⟩ := List.exists_cons_of_ne_nil hBody.ne_nil
  have hFirst := hBody.first (List.append_nil _).symm
  generalize hText : c :: tail ++ rest = text at h
  cases h with
  | nil => cases hText
  | gap hGap =>
      cases hText
      rw [hFirst] at hGap
      cases hGap
  | @statement _ body behind found hOtherBody hOtherBalanced hOtherEnd later =>
      have hSame : c :: tail = body := by
        rcases List.append_eq_append_iff.mp hText with ⟨more, rfl, rfl⟩ | ⟨more, hLonger, rfl⟩
        · by_contra hMore
          exact hEnd.not_undivided hBalanced (by simpa using hMore) hOtherEnd hOtherBody
        · by_contra hMore
          rw [hLonger] at hMore hBody hEnd
          exact hOtherEnd.not_undivided hOtherBalanced (by simpa using hMore) hEnd hBody
      subst hSame
      obtain rfl := List.append_cancel_left hText
      exact ⟨found, rfl, later⟩

/-- A text is divided in one way only, so that the relation describes the
reader completely. -/
theorem unique {other : List Span} (h : Divided offset text found)
    (hOther : Divided offset text other) : found = other := by
  induction h generalizing other with
  | nil => exact hOther.eq_nil.symm
  | gap hGap _ ih => exact ih (hOther.of_gap hGap)
  | statement hBody hBalanced hEnd _ ih =>
      obtain ⟨later, rfl, hLater⟩ := hOther.of_statement hBody hBalanced hEnd
      rw [ih hLater]

end Divided

/-- The spans of a source are the one way to divide it. The relation says
where statements begin and end without following the reader's states. -/
theorem spans_eq_ok_iff : spans text = .ok found ↔ Divided 0 text found := by
  have hDivided {other : List Span} (h : spans text = .ok other) : Divided 0 text other := by
    have hStart : Progress.none.Tracks [] [] Cursor.start.shape := .idle
    exact divided_of_spansFrom hStart rfl h
  refine ⟨hDivided, fun h => ?_⟩
  have hCheck : check text = .ok () := h.balanced
  rw [← map_spans] at hCheck
  obtain ⟨other, hOther, -⟩ := map_ok hCheck
  rw [hOther, h.unique (hDivided hOther)]

end ScriptBindings.Declaration
