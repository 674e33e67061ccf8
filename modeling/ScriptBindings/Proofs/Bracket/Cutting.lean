import ScriptBindings.Bracket.Cut
import ScriptBindings.Proofs.Bracket.Balance

/-! Cuts of balanced texts. No cut of a balanced text meets a fault, and all
pieces are balanced again. Conversely a text put together from balanced
pieces is cut into exactly those pieces, if no piece could be cut itself. -/
namespace ScriptBindings.Bracket

open Outcomes Shape

variable {separator : Char} {text piece rest before after inside : List Char}

/-- From this shape on, no separator stands outside all brackets and
literals. -/
def Unbroken (separator : Char) : Shape → List Char → Prop
  | _, [] => True
  | s, c :: rest =>
      ¬(s.atTop = true ∧ c = separator) ∧
        ∀ next, s.step c = some next → Unbroken separator next rest

/-- A balanced text that is one piece for this separator. -/
structure Whole (separator : Char) (text : List Char) : Prop where
  balanced : Balanced text
  unbroken : Unbroken separator start text

namespace Unbroken

/-- A text without the separator is unbroken by it at any depth. -/
theorem of_not_mem {s : Shape} (h : separator ∉ text) : Unbroken separator s text := by
  induction text generalizing s with
  | nil => trivial
  | cons c rest ih =>
      simp only [List.mem_cons, not_or] at h
      exact ⟨fun hTop => h.1 hTop.2.symm, fun next _ => ih h.2⟩

/-- Unbroken texts may be joined where the second is unbroken at the depth
that the first ends with. -/
theorem append {s : Shape} (h : Unbroken separator s text)
    (hRest : ∀ last, s.run text = some last → Unbroken separator last rest) :
    Unbroken separator s (text ++ rest) := by
  induction text generalizing s with
  | nil => exact hRest s rfl
  | cons c tail ih =>
      refine ⟨h.1, fun next hStep => ih (h.2 next hStep) fun last hRun => hRest last ?_⟩
      simp [run, hStep, hRun]

/-- Inside a bracket that the text does not close, nothing is outside all
brackets. -/
theorem under {s last : Shape} {outer : List Bracket} (hOuter : outer ≠ [])
    (h : s.run text = some last) : Unbroken separator (s.under outer) text := by
  induction text generalizing s with
  | nil => trivial
  | cons c rest ih =>
      obtain ⟨next, hStep, hRest⟩ := Option.bind_eq_some_iff.mp h
      refine ⟨fun hTop => ?_, fun wide hWide => ?_⟩
      · have hKinds : s.kinds ++ outer = [] := by
          simpa [Shape.under, code] using congrArg kinds (Shape.atTop_iff.mp hTop.1)
        exact hOuter (List.append_eq_nil_iff.mp hKinds).2
      · have hUnder := step_under outer hStep
        rw [hWide] at hUnder
        cases hUnder
        exact ih hRest

end Unbroken

namespace Whole

theorem of_not_mem (h : Balanced text) (hSeparator : separator ∉ text) : Whole separator text :=
  ⟨h, .of_not_mem hSeparator⟩

theorem append (h : Whole separator text) (hRest : Whole separator rest)
    (hLast : text.getLast? ≠ some '=') : Whole separator (text ++ rest) where
  balanced := h.balanced.append hRest.balanced hLast
  unbroken := h.unbroken.append fun last hRun => by
    have hStart := h.balanced.run []
    rw [beq_eq_false_iff_ne.mpr hLast] at hStart
    rw [show start = code [] false from rfl, hStart] at hRun
    cases hRun
    exact hRest.unbroken

/-- A text in brackets is one piece, whatever it contains. -/
theorem group {opener closer : Char} {kind : Bracket} (h : Balanced inside)
    (hOpener : opening? opener = some kind) (hCloser : closing? closer = some kind)
    (hLast : kind = .angle → inside.getLast? ≠ some '=') (hDiffers : opener ≠ separator)
    (hOther : closer ≠ separator) : Whole separator (opener :: (inside ++ [closer])) where
  balanced := h.group hOpener hCloser hLast
  unbroken := by
    refine ⟨fun hTop => hDiffers hTop.2, fun next hStep => ?_⟩
    rw [show start = code [] false from rfl, step_opening _ _ hOpener] at hStep
    cases hStep
    obtain ⟨arrow, hRun⟩ := balanced_iff.mp h
    refine (Unbroken.under (List.cons_ne_nil kind []) hRun).append fun last _ => ?_
    exact ⟨fun hTop => hOther hTop.2, fun _ _ => trivial⟩

end Whole

/-- One step of the cut, inverted: the cursor steps, the rest is cut, and
the character either begins a piece or joins the first one. -/
theorem splitTopFrom_cons_ok {k : Cursor} {c : Char} {pieces : List (List Char)}
    (h : splitTopFrom separator k (c :: rest) = .ok pieces) :
    ∃ next later, k.step c = .ok next ∧ splitTopFrom separator next rest = .ok later ∧
      pieces = if k.atTop && c == separator then [] :: later else consFirst c later := by
  obtain ⟨next, hStep, h⟩ := bind_ok h
  obtain ⟨later, hLater, h⟩ := bind_ok h
  exact ⟨next, later, hStep, hLater, (Except.ok.inj h).symm⟩

/-- A walk that ends outside everything finds at least one piece. -/
theorem exists_splitTopFrom {k : Cursor} {last : Shape} (h : k.shape.run text = some last)
    (hTop : last.atTop = true) :
    ∃ first later, splitTopFrom separator k text = .ok (first :: later) := by
  induction text generalizing k with
  | nil =>
      cases h
      rw [k.shape_atTop] at hTop
      exact ⟨[], [], by simp [splitTopFrom, Cursor.finish_ok_iff.mpr hTop]⟩
  | cons c rest ih =>
      obtain ⟨shape, hStep, hRest⟩ := Option.bind_eq_some_iff.mp h
      obtain ⟨next, hNext, rfl⟩ := Cursor.step_of_shape hStep
      obtain ⟨first, later, hLater⟩ := ih hRest
      simp only [splitTopFrom, hNext, hLater, ok_bind, pure_eq_ok]
      split
      · exact ⟨[], first :: later, rfl⟩
      · exact ⟨c :: first, later, rfl⟩

/-- Cutting fails for no balanced text, whatever the separator. The fault of
a cut is one of the brackets alone. -/
theorem exists_splitTop (separator : Char) (h : Balanced text) :
    ∃ pieces, splitTop separator text = .ok pieces := by
  obtain ⟨arrow, hRun⟩ := balanced_iff.mp h
  obtain ⟨first, later, hPieces⟩ := exists_splitTopFrom
    (show Cursor.start.shape.run text = some (code [] arrow) from hRun) rfl
  exact ⟨first :: later, hPieces⟩

theorem ne_nil_of_splitTopFrom {k : Cursor} {pieces : List (List Char)}
    (h : splitTopFrom separator k text = .ok pieces) : pieces ≠ [] := by
  cases text with
  | nil =>
      obtain ⟨_, -, h⟩ := bind_ok h
      cases h
      simp
  | cons c rest =>
      obtain ⟨next, later, -, -, rfl⟩ := splitTopFrom_cons_ok h
      split
      · simp
      · cases later <;> simp [consFirst]

/-- The rest of the piece that is being read leads outside everything, and
all pieces behind it are balanced. -/
theorem splitTopFrom_pieces {k : Cursor} {first : List Char} {later : List (List Char)}
    (hPlain : isPlain separator = true)
    (h : splitTopFrom separator k text = .ok (first :: later)) :
    (∃ arrow, k.shape.run first = some (code [] arrow)) ∧ ∀ p ∈ later, Balanced p := by
  induction text generalizing k first later with
  | nil =>
      obtain ⟨_, hFinish, h⟩ := bind_ok h
      cases h
      have hTop := k.shape_atTop.trans (Cursor.finish_ok_iff.mp hFinish)
      exact ⟨⟨k.shape.arrow, congrArg some (Shape.atTop_iff.mp hTop)⟩, by simp⟩
  | cons c rest ih =>
      obtain ⟨next, pieces, hStep, hPieces, hAll⟩ := splitTopFrom_cons_ok h
      obtain ⟨head, tail, rfl⟩ := List.exists_cons_of_ne_nil (ne_nil_of_splitTopFrom hPieces)
      obtain ⟨⟨arrow, hHead⟩, hTail⟩ := ih hPieces
      have hNext := Cursor.step_ok hStep
      split at hAll
      · next hCut =>
          simp only [Bool.and_eq_true, beq_iff_eq] at hCut
          cases hAll
          have hTop := Shape.atTop_iff.mp (k.shape_atTop.trans hCut.1)
          rw [hTop, hCut.2, step_plain hPlain] at hNext
          rw [← Option.some.inj hNext] at hHead
          have hBalanced : Balanced head := balanced_iff.mpr ⟨arrow, hHead⟩
          exact ⟨⟨k.shape.arrow, congrArg some hTop⟩, List.forall_mem_cons.mpr ⟨hBalanced, hTail⟩⟩
      · cases hAll
        exact ⟨⟨arrow, by simp [run, hNext, hHead]⟩, hTail⟩

/-- The pieces of a cut are balanced again, so that they may be parsed on
their own. A separator that is no bracket leaves the depth as it is. -/
theorem balanced_of_mem_splitTop {pieces : List (List Char)} (hPlain : isPlain separator = true)
    (h : splitTop separator text = .ok pieces) (member : piece ∈ pieces) : Balanced piece := by
  obtain ⟨first, later, rfl⟩ := List.exists_cons_of_ne_nil (ne_nil_of_splitTopFrom h)
  obtain ⟨hFirst, hLater⟩ := splitTopFrom_pieces hPlain h
  rcases List.mem_cons.mp member with rfl | hLaterMember
  · exact balanced_iff.mpr hFirst
  · exact hLater piece hLaterMember

/-- Where the walk stands decides which pieces it finds, and not how it came
there. -/
theorem splitTopFrom_of_shape {k other : Cursor} {pieces : List (List Char)}
    (hShape : other.shape = k.shape) (h : splitTopFrom separator k text = .ok pieces) :
    splitTopFrom separator other text = .ok pieces := by
  have hTop : other.atTop = k.atTop := by rw [← other.shape_atTop, hShape, k.shape_atTop]
  induction text generalizing k other pieces with
  | nil =>
      obtain ⟨_, hFinish, h⟩ := bind_ok h
      cases h
      have hOther : other.finish = .ok () :=
        Cursor.finish_ok_iff.mpr (hTop.trans (Cursor.finish_ok_iff.mp hFinish))
      simp [splitTopFrom, hOther]
  | cons c rest ih =>
      obtain ⟨next, later, hStep, hLater, rfl⟩ := splitTopFrom_cons_ok h
      obtain ⟨otherNext, hOther, hSame⟩ :=
        Cursor.step_of_shape (hShape ▸ Cursor.step_ok hStep)
      have hTopNext : otherNext.atTop = next.atTop := by
        rw [← otherNext.shape_atTop, hSame, next.shape_atTop]
      simp [splitTopFrom, hOther, ih hSame hLater hTopNext, hTop]

/-- A text without separators outside brackets is added to the piece behind
it. -/
theorem splitTopFrom_append {k middle : Cursor} {first : List Char} {later : List (List Char)}
    (hRun : k.run text = .ok middle) (hUnbroken : Unbroken separator k.shape text)
    (h : splitTopFrom separator middle rest = .ok (first :: later)) :
    splitTopFrom separator k (text ++ rest) = .ok ((text ++ first) :: later) := by
  induction text generalizing k with
  | nil =>
      cases hRun
      exact h
  | cons c tail ih =>
      obtain ⟨next, hStep, hTail⟩ := bind_ok hRun
      have hCut : (k.atTop && c == separator) = false := by
        rw [← k.shape_atTop]
        simpa using hUnbroken.1
      have hRest := ih hTail (hUnbroken.2 next.shape (Cursor.step_ok hStep))
      simp [splitTopFrom, hStep, hRest, hCut, consFirst]

namespace Whole

/-- A text that is whole for the separator is its own only piece. Single
members and single parameters are such texts. -/
theorem splitTop_eq (h : Whole separator text) : splitTop separator text = .ok [text] := by
  obtain ⟨last, arrow, hRun, hShape⟩ := h.balanced.exists_run
  have hTop : last.atTop = true := by rw [← last.shape_atTop, hShape]; rfl
  have hEnd : splitTopFrom separator last [] = .ok [[]] := by
    simp [splitTopFrom, Cursor.finish_ok_iff.mpr hTop]
  have hAll := splitTopFrom_append hRun h.unbroken hEnd
  rwa [List.append_nil] at hAll

/-- A whole text before a separator is the first piece. -/
theorem splitTop_append {pieces : List (List Char)} (h : Whole separator piece)
    (hPlain : isPlain separator = true) (hRest : splitTop separator rest = .ok pieces) :
    splitTop separator (piece ++ separator :: rest) = .ok (piece :: pieces) := by
  obtain ⟨last, arrow, hRun, hShape⟩ := h.balanced.exists_run
  have hTop : last.atTop = true := by rw [← last.shape_atTop, hShape]; rfl
  obtain ⟨next, hStep, hNext⟩ := Cursor.step_of_shape (hShape ▸ step_plain hPlain)
  have hCut : splitTopFrom separator last (separator :: rest) = .ok ([] :: pieces) := by
    simp [splitTopFrom, hStep, splitTopFrom_of_shape hNext hRest, hTop]
  have hAll := splitTopFrom_append hRun h.unbroken hCut
  rwa [List.append_nil] at hAll

end Whole

/-- The search for a break, one character at a time, where the step of the
cursor is known. -/
theorem breakTopFrom_cons {accepts : Char → List Char → Bool} {k next : Cursor} {c : Char}
    (hStep : k.step c = .ok next) :
    breakTopFrom accepts k (c :: rest) =
      if k.atTop && next.openBrackets.isEmpty && accepts c rest then .ok (some ([], rest))
      else
        (breakTopFrom accepts next rest).map
          (·.map fun (before, after) => (c :: before, after)) := by
  simp only [breakTopFrom, hStep, ok_bind, pure_eq_ok]
  split
  · rfl
  · cases breakTopFrom accepts next rest <;> rfl

theorem exists_breakTopFrom {accepts : Char → List Char → Bool} {k : Cursor} {last : Shape}
    (h : k.shape.run text = some last) (hTop : last.atTop = true) :
    ∃ found, breakTopFrom accepts k text = .ok found := by
  induction text generalizing k with
  | nil =>
      cases h
      rw [k.shape_atTop] at hTop
      exact ⟨none, by simp [breakTopFrom, Cursor.finish_ok_iff.mpr hTop]⟩
  | cons c rest ih =>
      obtain ⟨shape, hStep, hRest⟩ := Option.bind_eq_some_iff.mp h
      obtain ⟨next, hNext, rfl⟩ := Cursor.step_of_shape hStep
      obtain ⟨found, hFound⟩ := ih hRest
      rw [breakTopFrom_cons hNext, hFound]
      split
      · exact ⟨_, rfl⟩
      · exact ⟨_, rfl⟩

theorem exists_breakTop (accepts : Char → List Char → Bool) (h : Balanced text) :
    ∃ found, breakTop accepts text = .ok found := by
  obtain ⟨arrow, hRun⟩ := balanced_iff.mp h
  exact exists_breakTopFrom (show Cursor.start.shape.run text = some (code [] arrow) from hRun) rfl

/-- The walk is outside everything before the character at which a text
breaks. -/
theorem breakTopFrom_some {accepts : Char → List Char → Bool} {k : Cursor}
    (h : breakTopFrom accepts k text = .ok (some (before, after))) :
    ∃ c arrow, text = before ++ c :: after ∧ accepts c after = true ∧
      k.shape.run before = some (code [] arrow) := by
  induction text generalizing k before with
  | nil =>
      obtain ⟨_, -, h⟩ := bind_ok h
      cases h
  | cons c rest ih =>
      obtain ⟨next, hStep, -⟩ := bind_ok h
      rw [breakTopFrom_cons hStep] at h
      split at h
      · next hBreak =>
          cases h
          simp only [Bool.and_eq_true] at hBreak
          have hTop := Shape.atTop_iff.mp (k.shape_atTop.trans hBreak.1.1)
          exact ⟨c, k.shape.arrow, rfl, hBreak.2, congrArg some hTop⟩
      · obtain ⟨found, hFound, hMap⟩ := map_ok h
        obtain ⟨⟨inner, behind⟩, rfl, hPair⟩ := Option.map_eq_some_iff.mp hMap
        cases hPair
        obtain ⟨d, arrow, rfl, hAccepts, hRun⟩ := ih hFound
        exact ⟨d, arrow, rfl, hAccepts, by simp [run, Cursor.step_ok hStep, hRun]⟩

/-- A break that was found is one: the text is put together of the two sides
and the character between, and what stands before is balanced. -/
theorem breakTop_some {accepts : Char → List Char → Bool}
    (h : breakTop accepts text = .ok (some (before, after))) :
    ∃ c, text = before ++ c :: after ∧ accepts c after = true ∧ Balanced before := by
  obtain ⟨c, arrow, hText, hAccepts, hRun⟩ := breakTopFrom_some h
  exact ⟨c, hText, hAccepts, balanced_iff.mpr ⟨arrow, hRun⟩⟩

/-- What follows a plain character outside all brackets is balanced. -/
theorem Balanced.of_append_cons {c : Char} (h : Balanced (before ++ c :: after))
    (hBefore : Balanced before) (hPlain : isPlain c = true) : Balanced after := by
  obtain ⟨arrow, hRun⟩ := balanced_iff.mp hBefore
  obtain ⟨last, hAll⟩ := balanced_iff.mp h
  rw [run_append, hRun] at hAll
  simp only [Option.bind_some, Shape.run, step_plain hPlain] at hAll
  exact balanced_iff.mpr ⟨last, hAll⟩

/-- Passing over a text in which nothing is accepted. -/
theorem breakTopFrom_append {accepts : Char → List Char → Bool} {k middle : Cursor}
    (hRun : k.run text = .ok middle) (hNone : ∀ c ∈ text, ∀ behind, accepts c behind = false) :
    breakTopFrom accepts k (text ++ rest) =
      (breakTopFrom accepts middle rest).map
        (·.map fun (before, after) => (text ++ before, after)) := by
  induction text generalizing k with
  | nil =>
      cases hRun
      cases hRest : breakTopFrom accepts middle rest with
      | error fault => simp [hRest, Except.map]
      | ok found => cases found <;> simp [hRest, Except.map]
  | cons c tail ih =>
      obtain ⟨next, hStep, hTail⟩ := bind_ok hRun
      simp only [List.forall_mem_cons] at hNone
      rw [List.cons_append, breakTopFrom_cons hStep, hNone.1, Bool.and_false,
        if_neg Bool.false_ne_true, ih hTail hNone.2]
      cases breakTopFrom accepts middle rest with
      | error fault => rfl
      | ok found => cases found <;> rfl

theorem breakTop_eq_none {accepts : Char → List Char → Bool} (h : Balanced text)
    (hNone : ∀ c ∈ text, ∀ behind, accepts c behind = false) :
    breakTop accepts text = .ok none := by
  obtain ⟨last, arrow, hRun, hShape⟩ := h.exists_run
  have hTop : last.atTop = true := by rw [← last.shape_atTop, hShape]; rfl
  have hEnd : breakTopFrom accepts last [] = .ok none := by
    simp [breakTopFrom, Cursor.finish_ok_iff.mpr hTop]
  have hAll : breakTopFrom accepts .start (text ++ []) = _ := breakTopFrom_append hRun hNone
  rw [List.append_nil, hEnd] at hAll
  exact hAll

/-- A text breaks at the first accepted character, here a plain one. -/
theorem breakTop_eq_some {accepts : Char → List Char → Bool} {c : Char} (h : Balanced before)
    (hNone : ∀ d ∈ before, ∀ behind, accepts d behind = false) (hPlain : isPlain c = true)
    (hAccepts : accepts c after = true) :
    breakTop accepts (before ++ c :: after) = .ok (some (before, after)) := by
  obtain ⟨last, arrow, hRun, hShape⟩ := h.exists_run
  have hTop : last.atTop = true := by rw [← last.shape_atTop, hShape]; rfl
  obtain ⟨next, hStep, hNext⟩ := Cursor.step_of_shape (hShape ▸ step_plain hPlain)
  have hEmpty : next.openBrackets.isEmpty = true := by
    simpa [Cursor.shape, code] using congrArg kinds hNext
  have hAll : breakTopFrom accepts .start (before ++ c :: after) = _ :=
    breakTopFrom_append hRun hNone
  rw [breakTopFrom_cons hStep, hTop, hEmpty, hAccepts] at hAll
  rw [breakTop, hAll]
  simp [Except.map]

/-- A character that the text does not hold is not found. -/
theorem breakTop_eq_none_of_not_mem {accepts : Char → List Char → Bool} {c : Char}
    (h : Balanced text) (hAccepts : ∀ d behind, accepts d behind = true → d = c)
    (hText : c ∉ text) :
    breakTop accepts text = .ok none := by
  refine breakTop_eq_none h fun d hd behind => ?_
  rw [Bool.eq_false_iff]
  intro hAccept
  rw [hAccepts d behind hAccept] at hd
  exact hText hd

end ScriptBindings.Bracket
