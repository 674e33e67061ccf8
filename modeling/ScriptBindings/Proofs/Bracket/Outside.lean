import ScriptBindings.Proofs.Bracket.Cutting
import ScriptBindings.Proofs.Bracket.Ends

/-! What stands outside all brackets and literals. A place in a text is
outside exactly when the text before it is balanced, so that whether a
separator or an arrow is found there follows from balance alone. -/
namespace ScriptBindings.Bracket

open Text Outcomes Shape

/-- Nowhere in the text does `key` stand outside all brackets and
literals. -/
def Lacks (key text : List Char) : Prop :=
  ∀ before after, text = before ++ (key ++ after) → ¬Balanced before

/-- The arrow of a function type. -/
def arrow : List Char :=
  ['=', '>']

variable {key text rest front back before after inside : List Char} {separator : Char}

/-- A keyword is absent outside of brackets if no balanced front of the text
has it right behind. -/
theorem lacks_iff : Lacks key text ↔
    ∀ n ≤ text.length, key <+: text.drop n → ¬Balanced (text.take n) := by
  constructor
  · rintro h n - ⟨after, hAfter⟩
    exact h _ after (by rw [hAfter, List.take_append_drop])
  · rintro h before after rfl
    have hNot := h before.length (by simp) (by simp)
    simpa using hNot

instance (key : List Char) : DecidablePred (Lacks key) := fun _ =>
  decidable_of_iff _ lacks_iff.symm

/-- A bracket that is open at the end keeps a text from being balanced,
whatever the text behind it would close. -/
theorem not_balanced_of_open {opener : Char} {kind : Bracket} (h : Balanced (before ++ after))
    (hOpener : opening? opener = some kind) : ¬Balanced (opener :: before) := by
  intro hOpen
  obtain ⟨last, hLast⟩ := balanced_iff.mp hOpen
  obtain ⟨other, hAll⟩ := balanced_iff.mp h
  rw [run_append] at hAll
  obtain ⟨middle, hMiddle, -⟩ := Option.bind_eq_some_iff.mp hAll
  have hUnder : (code [kind] false).run before = some (middle.under [kind]) :=
    run_under [kind] (s := start) hMiddle
  rw [start, run, step_opening [] false hOpener, Option.bind_some, hUnder] at hLast
  have hKinds := congrArg kinds (Option.some.inj hLast)
  simp [Shape.under, code] at hKinds

namespace Lacks

theorem of_not_mem {c : Char} (hMem : c ∈ key) (h : c ∉ text) : Lacks key text := by
  rintro before after rfl -
  simp [hMem] at h

/-- The front of a text lacks what the text lacks. -/
theorem of_append (h : Lacks key (text ++ rest)) : Lacks key text := by
  rintro before after rfl
  exact h before (after ++ rest) (by simp)

/-- So does the rest behind a balanced front, unless the seam would make an
arrow. -/
theorem of_balanced_append (h : Lacks key (front ++ text)) (hFront : Balanced front)
    (hLast : front.getLast? ≠ some '=') : Lacks key text := by
  rintro before after rfl hBefore
  exact h (front ++ before) after (by simp) (hFront.append hBefore hLast)

/-- A plain front can be taken off without looking at the seam. -/
theorem of_plain_append (h : Lacks key (front ++ text)) (hFront : ∀ c ∈ front, isPlain c = true) :
    Lacks key text :=
  h.of_balanced_append (.of_plain hFront) (Balanced.getLast?_plain hFront)

/-- What shares no character with the key may follow, because no occurrence
of the key can reach into it. -/
theorem append_of_not_mem (h : Lacks key text) (hNil : key ≠ []) (hBack : ∀ c ∈ key, c ∉ back) :
    Lacks key (text ++ back) := by
  intro before after hText hBefore
  rcases List.append_eq_append_iff.mp hText with ⟨tail, -, hTail⟩ | ⟨tail, rfl, hTail⟩
  · obtain ⟨c, hMem⟩ := List.exists_mem_of_ne_nil key hNil
    exact hBack c hMem (by simp [hTail, hMem])
  · rcases List.append_eq_append_iff.mp hTail with ⟨more, rfl, -⟩ | ⟨more, hKey, rfl⟩
    · exact h before more rfl hBefore
    · cases more with
      | nil => exact h before [] (by simp [hKey]) hBefore
      | cons c more => exact hBack c (by simp [hKey]) List.mem_cons_self

/-- A character may be added at the end unless it is the one looked for and
stands at the top. -/
theorem concat {c d : Char} (h : Lacks [d] text) (hNext : c = d → ¬Balanced text) :
    Lacks [d] (text ++ [c]) := by
  intro before after hText hBefore
  rw [← List.append_assoc] at hText
  rcases cases_of_concat_eq_append hText with ⟨rfl, hLast⟩ | ⟨after, rfl, hRest⟩
  · obtain ⟨rfl, hSame⟩ := List.append_inj' hLast rfl
    exact hNext (List.singleton_inj.mp hSame).symm hBefore
  · exact h before after (by rw [hRest, List.append_assoc]) hBefore

/-- Plain characters that the key does not begin with may stand in front. -/
theorem plain_append (h : Lacks key text) (hFront : ∀ c ∈ front, isPlain c = true) {c : Char}
    (hHead : key.head? = some c) (hMem : c ∉ front) : Lacks key (front ++ text) := by
  obtain ⟨keyRest, rfl⟩ := List.head?_eq_some_iff.mp hHead
  intro before after hText hBefore
  rcases List.append_eq_append_iff.mp hText with ⟨tail, rfl, hTail⟩ | ⟨tail, hSplit, hTail⟩
  · exact h tail after hTail ((Balanced.plain_append_iff hFront).mp hBefore)
  · cases tail with
    | nil =>
        rw [List.append_nil] at hSplit
        subst hSplit
        exact h [] after hTail.symm .nil
    | cons d tail =>
        obtain ⟨rfl, -⟩ := List.cons.inj hTail
        exact hMem (by simp [hSplit])

/-- A single character is outside in two texts together only where it is in
one of them. -/
theorem append_of_meets {d : Char} (h : Lacks [d] text) (hRest : Lacks [d] rest)
    (hText : Balanced text) (hMeets : MeetsPlainly text rest) : Lacks [d] (text ++ rest) := by
  intro before after hSplit hBefore
  rcases List.append_eq_append_iff.mp hSplit with ⟨tail, rfl, rfl⟩ | ⟨tail, rfl, hTail⟩
  · exact hRest tail after rfl ((hText.append_iff_of_meets hMeets.of_append).mp hBefore)
  · cases tail with
    | nil => exact hRest [] after hTail.symm .nil
    | cons c tail =>
        obtain ⟨rfl, -⟩ := List.cons.inj hTail
        exact h before tail rfl hBefore

/-- No arrow comes about where two texts meet, if the first does not end
with `=`. -/
theorem append (h : Lacks arrow text) (hRest : Lacks arrow rest) (hText : Balanced text)
    (hLast : text.getLast? ≠ some '=') : Lacks arrow (text ++ rest) := by
  intro before after hSplit hBefore
  rcases List.append_eq_append_iff.mp hSplit with ⟨tail, rfl, hTail⟩ | ⟨tail, rfl, hTail⟩
  · exact hRest tail after hTail ((hText.append_iff hLast).mp hBefore)
  · cases tail with
    | nil =>
        rw [List.append_nil] at hText hLast
        exact hRest [] after (by simpa using hTail.symm) .nil
    | cons c tail =>
        obtain ⟨rfl, hBehind⟩ := List.cons.inj hTail
        cases tail with
        | nil => simp at hLast
        | cons d tail =>
            obtain ⟨rfl, -⟩ := List.cons.inj hBehind
            exact h before tail (by simp [arrow]) hBefore

/-- Between a pair of brackets nothing is outside. -/
theorem group {opener closer : Char} {kind : Bracket} (h : Balanced inside)
    (hOpener : opening? opener = some kind) (hHead : key.head? ≠ some opener) (hNil : key ≠ []) :
    Lacks key (opener :: (inside ++ [closer])) := by
  intro before after hText
  cases before with
  | nil =>
      obtain ⟨c, rest, rfl⟩ := List.exists_cons_of_ne_nil hNil
      obtain ⟨rfl, -⟩ := List.cons.inj hText
      exact absurd rfl hHead
  | cons c tail =>
      obtain ⟨rfl, hTail⟩ := List.cons.inj hText
      rcases List.append_eq_append_iff.mp hTail with ⟨more, rfl, hMore⟩ | ⟨more, rfl, -⟩
      · have hLength := congrArg List.length hMore
        have hKey := List.length_pos_iff.mpr hNil
        simp only [List.length_singleton, List.length_append] at hLength
        obtain rfl : more = [] := List.eq_nil_of_length_eq_zero (by omega)
        rw [List.append_nil]
        rw [← List.append_nil inside] at h
        exact not_balanced_of_open h hOpener
      · exact not_balanced_of_open h hOpener

end Lacks

/-! ### Separators -/

/-- Unbroken text, said of every place at which the separator occurs: none
of them is at the top. -/
theorem unbroken_iff {s : Shape} :
    Unbroken separator s text ↔ ∀ before after last, text = before ++ separator :: after →
      s.run before = some last → last.atTop = false := by
  induction text generalizing s with
  | nil => simp [Unbroken]
  | cons c rest ih =>
      constructor
      · rintro ⟨hHere, hLater⟩ before after last hText hRun
        cases before with
        | nil =>
            obtain ⟨rfl, -⟩ := List.cons.inj hText
            cases hRun
            simpa using hHere
        | cons d tail =>
            obtain ⟨rfl, rfl⟩ := List.cons.inj hText
            obtain ⟨next, hStep, hRest⟩ := Option.bind_eq_some_iff.mp hRun
            exact ih.mp (hLater next hStep) tail after last rfl hRest
      · intro h
        refine ⟨?_, fun next hStep => ih.mpr fun before after last hText hRun => ?_⟩
        · rintro ⟨hTop, rfl⟩
          rw [h [] rest s rfl rfl] at hTop
          cases hTop
        · exact h (c :: before) after last (by rw [hText]; rfl) (by simp [run, hStep, hRun])

/-- A balanced text is one piece exactly when no separator is outside.
Separators within brackets or literals do not cut. -/
theorem whole_iff : Whole separator text ↔ Balanced text ∧ Lacks [separator] text := by
  constructor
  · intro h
    refine ⟨h.balanced, fun before after hText hBefore => ?_⟩
    obtain ⟨arrow, hRun⟩ := balanced_iff.mp hBefore
    have hTop := unbroken_iff.mp h.unbroken before after _ hText hRun
    cases hTop
  · rintro ⟨hBalanced, hLacks⟩
    refine ⟨hBalanced, unbroken_iff.mpr fun before after last hText hRun => ?_⟩
    rw [Bool.eq_false_iff]
    intro hTop
    rw [Shape.atTop_iff.mp hTop] at hRun
    exact hLacks before after hText (balanced_iff.mpr ⟨last.arrow, hRun⟩)

/-- The pieces that are found are unbroken and make up the text again. -/
theorem splitTopFrom_joined {k : Cursor} {first : List Char} {later : List (List Char)}
    (hPlain : isPlain separator = true)
    (h : splitTopFrom separator k text = .ok (first :: later)) :
    Unbroken separator k.shape first ∧ (∀ p ∈ later, Unbroken separator start p) ∧
      text = [separator].intercalate (first :: later) := by
  induction text generalizing k first later with
  | nil =>
      obtain ⟨_, -, h⟩ := bind_ok h
      cases h
      exact ⟨trivial, by simp, rfl⟩
  | cons c rest ih =>
      obtain ⟨next, pieces, hStep, hPieces, hAll⟩ := splitTopFrom_cons_ok h
      obtain ⟨head, tail, rfl⟩ := List.exists_cons_of_ne_nil (ne_nil_of_splitTopFrom hPieces)
      obtain ⟨hHead, hTail, rfl⟩ := ih hPieces
      have hNext := Cursor.step_ok hStep
      split at hAll
      · next hCut =>
          simp only [Bool.and_eq_true, beq_iff_eq] at hCut
          cases hAll
          rw [Shape.atTop_iff.mp (k.shape_atTop.trans hCut.1), hCut.2, step_plain hPlain] at hNext
          rw [← Option.some.inj hNext] at hHead
          refine ⟨trivial, List.forall_mem_cons.mpr ⟨hHead, hTail⟩, ?_⟩
          rw [hCut.2, List.intercalate_cons_cons]
          rfl
      · next hCut =>
          cases hAll
          refine ⟨⟨?_, fun other hOther => ?_⟩, hTail, ?_⟩
          · simpa [k.shape_atTop] using hCut
          · rw [hNext] at hOther
            exact Option.some.inj hOther ▸ hHead
          · cases later <;> simp [List.intercalate_cons_cons]

/-- A text is cut into the pieces that make it up and cannot be cut
themselves. -/
theorem splitTop_eq_ok_iff {pieces : List (List Char)} (hPlain : isPlain separator = true) :
    splitTop separator text = .ok pieces ↔
      pieces ≠ [] ∧ text = [separator].intercalate pieces ∧ ∀ p ∈ pieces, Whole separator p := by
  constructor
  · intro h
    obtain ⟨first, later, rfl⟩ := List.exists_cons_of_ne_nil (ne_nil_of_splitTopFrom h)
    obtain ⟨hFirst, hLater, hText⟩ := splitTopFrom_joined hPlain h
    refine ⟨List.cons_ne_nil _ _, hText, fun p hp => ⟨balanced_of_mem_splitTop hPlain h hp, ?_⟩⟩
    rcases List.mem_cons.mp hp with rfl | hMem
    · exact hFirst
    · exact hLater p hMem
  · rintro ⟨hNil, rfl, hWhole⟩
    induction pieces with
    | nil => exact absurd rfl hNil
    | cons piece rest ih =>
        obtain ⟨hPiece, hRest⟩ := List.forall_mem_cons.mp hWhole
        cases rest with
        | nil =>
            rw [List.intercalate_singleton]
            exact hPiece.splitTop_eq
        | cons next later =>
            rw [List.intercalate_cons_cons, List.append_assoc]
            exact hPiece.splitTop_append hPlain (ih (List.cons_ne_nil next later) hRest)

/-- Cutting loses nothing and leaves nothing to cut: the pieces are the one
way to make up the text, with separators between them, from balanced pieces
that are cut no further. -/
theorem splitTop_ok_iff_lossless {pieces : List (List Char)}
    (hSeparator : separator = ',' ∨ separator = '|') :
    splitTop separator text = .ok pieces ↔
      pieces ≠ [] ∧ [separator].intercalate pieces = text ∧
        ∀ piece ∈ pieces, check piece = .ok () ∧ splitTop separator piece = .ok [piece] := by
  have hPlain : isPlain separator = true := by
    rcases hSeparator with rfl | rfl <;> decide
  have hPiece (piece : List Char) :
      Whole separator piece ↔ check piece = .ok () ∧ splitTop separator piece = .ok [piece] := by
    constructor
    · intro h
      exact ⟨h.balanced, h.splitTop_eq⟩
    · rintro ⟨-, hSplit⟩
      exact ((splitTop_eq_ok_iff hPlain).mp hSplit).2.2 piece List.mem_cons_self
  rw [splitTop_eq_ok_iff hPlain, @eq_comm _ text]
  simp only [hPiece]

/-- A comma in brackets is no place to cut, and the `>` of an arrow closes
nothing. -/
theorem splitTop_ok_iff_lossless_members :
    [','].intercalate ["a: Map<b, c>".toList, " (d, e) => f".toList] =
        "a: Map<b, c>, (d, e) => f".toList ∧
      ∀ piece ∈ ["a: Map<b, c>".toList, " (d, e) => f".toList],
        check piece = .ok () ∧ splitTop ',' piece = .ok [piece] :=
  ((splitTop_ok_iff_lossless (Or.inl rfl)).mp rfl).2

/-! ### Breaks -/

/-- A break is found at the latest where one is known to be, and possibly
before it. -/
theorem exists_breakTopFrom_some {accepts : Char → List Char → Bool} {k : Cursor} {c : Char}
    {flag last : Bool} (hRun : k.shape.run before = some (code [] flag))
    (hStep : (code [] flag).step c = some (code [] last)) (hAccepts : accepts c after = true) :
    ∃ inner behind, breakTopFrom accepts k (before ++ c :: after) = .ok (some (inner, behind)) ∧
      inner.length ≤ before.length := by
  induction before generalizing k with
  | nil =>
      have hShape : k.shape = code [] flag := Option.some.inj hRun
      obtain ⟨next, hReached, hNext⟩ := Cursor.step_of_shape (hShape ▸ hStep)
      have hTop : k.atTop = true := by rw [← k.shape_atTop, hShape]; rfl
      have hEmpty : next.openBrackets.isEmpty = true := by
        simpa [Cursor.shape, code] using congrArg kinds hNext
      rw [List.nil_append, breakTopFrom_cons hReached, hTop, hEmpty, hAccepts]
      exact ⟨[], after, rfl, Nat.le_refl _⟩
  | cons d rest ih =>
      obtain ⟨shape, hNext, hRest⟩ := Option.bind_eq_some_iff.mp hRun
      obtain ⟨next, hReached, rfl⟩ := Cursor.step_of_shape hNext
      obtain ⟨inner, behind, hCut, hLength⟩ := ih hRest
      rw [List.cons_append, breakTopFrom_cons hReached, hCut]
      split
      · exact ⟨[], rest ++ c :: after, rfl, Nat.zero_le _⟩
      · exact ⟨d :: inner, behind, rfl, Nat.succ_le_succ hLength⟩

/-- A text breaks no later than at any character outside all brackets that
is accepted. -/
theorem exists_cut_of_accepts {accepts : Char → List Char → Bool} {c : Char}
    {found : Option (List Char × List Char)} (h : breakTop accepts text = .ok found)
    (hText : text = before ++ c :: after) (hBefore : Balanced before)
    (hStep : ∀ flag, ∃ last, (code [] flag).step c = some (code [] last))
    (hAccepts : accepts c after = true) :
    ∃ inner behind, found = some (inner, behind) ∧ inner.length ≤ before.length := by
  obtain ⟨flag, hRun⟩ := balanced_iff.mp hBefore
  obtain ⟨last, hNext⟩ := hStep flag
  obtain ⟨inner, behind, hCut, hLength⟩ :=
    exists_breakTopFrom_some (k := .start) hRun hNext hAccepts
  rw [breakTop, hText, hCut] at h
  exact ⟨inner, behind, (Except.ok.inj h).symm, hLength⟩

/-- Where nothing is found, the text has been walked to its end. -/
theorem exists_run_of_breakTopFrom_none {accepts : Char → List Char → Bool} {k : Cursor}
    (h : breakTopFrom accepts k text = .ok none) : ∃ flag, k.shape.run text = some (code [] flag) := by
  induction text generalizing k with
  | nil =>
      obtain ⟨_, hFinish, -⟩ := bind_ok h
      have hTop := k.shape_atTop.trans (Cursor.finish_ok_iff.mp hFinish)
      exact ⟨k.shape.arrow, congrArg some (Shape.atTop_iff.mp hTop)⟩
  | cons c rest ih =>
      obtain ⟨next, hStep, -⟩ := bind_ok h
      rw [breakTopFrom_cons hStep] at h
      split at h
      · cases h
      · obtain ⟨found, hFound, hMap⟩ := map_ok h
        obtain ⟨flag, hRun⟩ := ih (Option.map_eq_none_iff.mp hMap ▸ hFound)
        exact ⟨flag, by simp [run, Cursor.step_ok hStep, hRun]⟩

/-! ### Arrows -/

/-- An equals sign at the top is remembered for the step after it. -/
theorem step_equals (flag : Bool) : (code [] flag).step '=' = some (code [] true) := by
  cases flag <;> rfl

/-- A function type has an arrow behind a balanced text. What follows the
arrow need not be balanced, since the search ends there. -/
theorem hasArrow_eq_true_iff :
    hasArrow text = .ok true ↔ ∃ before after, text = before ++ (arrow ++ after) ∧ Balanced before := by
  constructor
  · intro h
    obtain ⟨found, hFound, hSome⟩ := bind_ok h
    obtain ⟨⟨before, after⟩, rfl⟩ := Option.isSome_iff_exists.mp (Except.ok.inj hSome)
    obtain ⟨c, rfl, hAccepts, hBefore⟩ := breakTop_some hFound
    simp only [Bool.and_eq_true, beq_iff_eq] at hAccepts
    obtain ⟨rest, rfl⟩ := List.head?_eq_some_iff.mp hAccepts.2
    exact ⟨before, rest, by rw [hAccepts.1]; rfl, hBefore⟩
  · rintro ⟨before, after, rfl, hBefore⟩
    obtain ⟨flag, hRun⟩ := balanced_iff.mp hBefore
    obtain ⟨inner, behind, hCut, -⟩ :
        ∃ inner behind, breakTopFrom (fun c rest => c == '=' && rest.head? == some '>') .start
          (before ++ '=' :: '>' :: after) = .ok (some (inner, behind)) ∧ _ :=
      exists_breakTopFrom_some hRun (step_equals flag) rfl
    rw [hasArrow, breakTop, arrow, List.cons_append, List.singleton_append, hCut]
    rfl

/-- A text is no function type exactly when it is balanced and no arrow is
outside. -/
theorem hasArrow_eq_false_iff : hasArrow text = .ok false ↔ Balanced text ∧ Lacks arrow text := by
  constructor
  · intro h
    refine ⟨?_, fun before after hText hBefore => ?_⟩
    · obtain ⟨found, hFound, hNone⟩ := bind_ok h
      obtain rfl : found = none := by simpa using hNone
      exact balanced_iff.mpr (exists_run_of_breakTopFrom_none hFound)
    · rw [hasArrow_eq_true_iff.mpr ⟨before, after, hText, hBefore⟩] at h
      cases h
  · rintro ⟨hBalanced, hLacks⟩
    obtain ⟨found, hFound⟩ :=
      exists_breakTop (fun c rest => c == '=' && rest.head? == some '>') hBalanced
    have hOk : hasArrow text = .ok found.isSome := by
      rw [hasArrow, hFound]
      rfl
    cases hSome : found.isSome with
    | false => rw [hOk, hSome]
    | true =>
        rw [hSome] at hOk
        obtain ⟨before, after, hText, hBefore⟩ := hasArrow_eq_true_iff.mp hOk
        exact absurd hBefore (hLacks before after hText)

end ScriptBindings.Bracket
