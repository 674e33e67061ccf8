import Mathlib.Data.List.DropRight
import Mathlib.Data.List.TakeWhile
import ScriptBindings.Text.Blank

/-! Blanks at the ends of a text. Trimming takes away blanks and nothing
else, and leaves a text without blank ends alone. -/
namespace ScriptBindings.Text

/-- Neither the first nor the last character is a blank. -/
structure Trimmed (text : List Char) : Prop where
  head : ∀ c, text.head? = some c → isBlank c = false
  last : ∀ c, text.getLast? = some c → isBlank c = false

variable {text rest front back : List Char}

/-- The last character of a text belongs to the second of two parts, unless
that is empty. -/
theorem cases_of_concat_eq_append {c : Char} (h : text ++ [c] = front ++ back) :
    (back = [] ∧ front = text ++ [c]) ∨ ∃ rest, back = rest ++ [c] ∧ text = front ++ rest := by
  rcases List.eq_nil_or_concat back with rfl | ⟨rest, d, rfl⟩
  · exact Or.inl ⟨rfl, by rw [h, List.append_nil]⟩
  · rw [List.concat_eq_append, ← List.append_assoc] at h
    obtain ⟨hText, hLast⟩ := List.append_inj' h rfl
    exact Or.inr ⟨rest, by rw [List.concat_eq_append, hLast], hText⟩

theorem trimStart_append_of_blank (h : ∀ c ∈ front, isBlank c = true) :
    trimStart (front ++ text) = trimStart text :=
  List.dropWhile_append_of_pos h

theorem trimEnd_append_of_blank (h : ∀ c ∈ back, isBlank c = true) :
    trimEnd (text ++ back) = trimEnd text := by
  rw [trimEnd, List.reverse_append, List.dropWhile_append_of_pos (by simpa using h), trimEnd]

theorem trimStart_eq_self (h : ∀ c, text.head? = some c → isBlank c = false) :
    trimStart text = text := by
  cases text with
  | nil => rfl
  | cons c rest => simp [trimStart, h c rfl]

/-- Trimming the front of a text that has a visible character does not reach
what follows. -/
theorem trimStart_append (h : ¬∀ c ∈ text, isBlank c = true) :
    trimStart (text ++ rest) = trimStart text ++ rest := by
  have hVisible : ¬(text.dropWhile isBlank).isEmpty = true := by
    rwa [List.isEmpty_iff, List.dropWhile_eq_nil_iff]
  rw [trimStart, List.dropWhile_append, if_neg hVisible, trimStart]

/-- So the first visible character is the same with or without what
follows. -/
theorem head?_trimStart_append (h : ¬∀ c ∈ text, isBlank c = true) :
    (trimStart (text ++ rest)).head? = (trimStart text).head? := by
  have hNil : trimStart text ≠ [] := mt List.dropWhile_eq_nil_iff.mp h
  rw [trimStart_append h, List.head?_append_of_ne_nil _ hNil]

theorem isBlank_of_head?_trimStart {c : Char} (h : (trimStart text).head? = some c) :
    isBlank c = false := by
  have hNot := List.head?_dropWhile_not isBlank text
  rw [show (text.dropWhile isBlank).head? = some c from h] at hNot
  simpa using hNot

/-- A first character that is not blank stands in the text. -/
theorem not_blank_of_head? {c : Char} (h : (trimStart text).head? = some c) :
    ¬∀ c ∈ text, isBlank c = true := by
  intro hBlank
  rw [trimStart, List.dropWhile_eq_nil_iff.mpr hBlank] at h
  cases h

theorem trimEnd_eq_self (h : ∀ c, text.getLast? = some c → isBlank c = false) :
    trimEnd text = text := by
  have hReverse : trimStart text.reverse = text.reverse :=
    trimStart_eq_self (by simpa using h)
  rw [trimEnd, show text.reverse.dropWhile isBlank = text.reverse from hReverse,
    List.reverse_reverse]

theorem Trimmed.trim_eq (h : Trimmed text) : trim text = text := by
  rw [trim, trimStart_eq_self h.head, trimEnd_eq_self h.last]

/-- Blanks on both sides of a trimmed text are all that trimming takes
away. -/
theorem Trimmed.trim_between (h : Trimmed text) (hNil : text ≠ [])
    (hFront : ∀ c ∈ front, isBlank c = true) (hBack : ∀ c ∈ back, isBlank c = true) :
    trim (front ++ (text ++ back)) = text := by
  have hHead : (text ++ back).head? = text.head? := List.head?_append_of_ne_nil _ hNil
  rw [trim, trimStart_append_of_blank hFront, trimStart_eq_self (hHead ▸ h.head),
    trimEnd_append_of_blank hBack, trimEnd_eq_self h.last]

/-- What stands between the ends of a trimmed text is of no account. -/
theorem Trimmed.append_middle {middle : List Char} (h : Trimmed text) (hRest : Trimmed rest)
    (hNil : text ≠ []) (hRestNil : rest ≠ []) : Trimmed (text ++ (middle ++ rest)) where
  head := by
    rw [List.head?_append_of_ne_nil _ hNil]
    exact h.head
  last := by
    rw [List.getLast?_append_of_ne_nil _ (List.append_ne_nil_of_right_ne_nil _ hRestNil),
      List.getLast?_append_of_ne_nil _ hRestNil]
    exact hRest.last

/-- Trimmed texts may be put one behind the other. Blanks between them would
be inside. -/
theorem Trimmed.append (h : Trimmed text) (hRest : Trimmed rest) (hNil : text ≠ [])
    (hRestNil : rest ≠ []) : Trimmed (text ++ rest) :=
  @append_middle text rest [] h hRest hNil hRestNil

/-- A text is trimmed if it begins and ends with visible characters. -/
theorem trimmed_of_ends {first last : Char} (hFirst : isBlank first = false)
    (hLast : isBlank last = false) : Trimmed (first :: (text ++ [last])) where
  head := by
    rintro c ⟨⟩
    exact hFirst
  last := by
    rw [← List.cons_append, List.getLast?_concat]
    rintro c ⟨⟩
    exact hLast

theorem trimmed_singleton {c : Char} (h : isBlank c = false) : Trimmed [c] := by
  constructor
  · rintro d ⟨⟩
    exact h
  · rintro d ⟨⟩
    exact h

theorem exists_trimStart (text : List Char) :
    ∃ front, text = front ++ trimStart text ∧ ∀ c ∈ front, isBlank c = true :=
  ⟨text.takeWhile isBlank, (List.takeWhile_append_dropWhile).symm,
    fun _ h => List.mem_takeWhile_imp h⟩

theorem exists_trimEnd (text : List Char) :
    ∃ back, text = trimEnd text ++ back ∧ ∀ c ∈ back, isBlank c = true := by
  obtain ⟨front, hText, hBlank⟩ := exists_trimStart text.reverse
  refine ⟨front.reverse, ?_, by simpa using hBlank⟩
  calc
    text = text.reverse.reverse := (List.reverse_reverse text).symm
    _ = (front ++ trimStart text.reverse).reverse := congrArg List.reverse hText
    _ = trimEnd text ++ front.reverse := List.reverse_append

/-- A text is its trimmed text with blanks around it, which is how trimming
is undone in proofs. -/
theorem exists_trim (text : List Char) :
    ∃ front back, text = front ++ (trim text ++ back) ∧ (∀ c ∈ front, isBlank c = true) ∧
      ∀ c ∈ back, isBlank c = true := by
  obtain ⟨front, hFront, hBlank⟩ := exists_trimStart text
  obtain ⟨back, hBack, hBackBlank⟩ := exists_trimEnd (trimStart text)
  exact ⟨front, back, hFront.trans (congrArg (front ++ ·) hBack), hBlank, hBackBlank⟩

/-- Only blanks are trimmed to nothing. -/
theorem isBlank_of_trim_eq_nil (h : trim text = []) : ∀ c ∈ text, isBlank c = true := by
  obtain ⟨front, back, hText, hFront, hBack⟩ := exists_trim text
  rw [h, List.nil_append] at hText
  rw [hText]
  exact List.forall_mem_append.mpr ⟨hFront, hBack⟩

/-- Trimming leaves no blank at either end. -/
theorem trimmed_trim (text : List Char) : Trimmed (trim text) where
  head := by
    obtain ⟨back, hText, -⟩ := exists_trimEnd (trimStart text)
    intro c hHead
    have hNil : trimEnd (trimStart text) ≠ [] := List.ne_nil_of_mem (List.mem_of_head? hHead)
    have hFirst : (trimStart text).head? = some c := by
      rw [hText, List.head?_append_of_ne_nil _ hNil]
      exact hHead
    exact isBlank_of_head?_trimStart hFirst
  last := by
    intro c hLast
    rw [trim, trimEnd, List.getLast?_reverse] at hLast
    exact isBlank_of_head?_trimStart hLast

end ScriptBindings.Text
