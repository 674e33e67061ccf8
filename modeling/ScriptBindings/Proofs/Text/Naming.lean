import ScriptBindings.Proofs.Text.Trimming
import ScriptBindings.Text.Identifier

/-! Names and the words that stand before other text. A name holds no blanks
and none of the marks between names, and it ends at the first character that
belongs to no name. -/
namespace ScriptBindings.Text

variable {text rest name : List Char}

/-- Every character of a name is one that may stand in names. -/
theorem isNameChar_of_isName {c : Char} (h : isName name = true) (hMem : c ∈ name) :
    isNameChar c = true := by
  cases name with
  | nil => cases hMem
  | cons first rest =>
      simp only [isName, Bool.and_eq_true] at h
      exact List.all_eq_true.mp h.2 c hMem

/-- These characters lie within a range of codes, which lets a character be
told from them by its code. -/
theorem isNameChar_range {c : Char} (h : isNameChar c = true) :
    36 ≤ c.toNat ∧ c.toNat ≤ 122 := by
  have hAlpha : c.isAlpha = (c.isUpper || c.isLower) := rfl
  have hUpper : c.isUpper = decide (c.val ≥ 'A'.val ∧ c.val ≤ 'Z'.val) := rfl
  have hLower : c.isLower = (decide (c.val ≥ 'a'.val) && decide (c.val ≤ 'z'.val)) := rfl
  simp only [isNameChar, Char.isAlphanum, hAlpha, hUpper, hLower, Char.isDigit, Bool.or_eq_true,
    Bool.and_eq_true, decide_eq_true_eq, beq_iff_eq, ge_iff_le, UInt32.le_iff_toNat_le] at h
  rcases h with (((⟨hLow, hHigh⟩ | ⟨hLow, hHigh⟩) | ⟨hLow, hHigh⟩) | rfl) | rfl
  · exact ⟨Nat.le_trans (by decide) hLow, Nat.le_trans hHigh (by decide)⟩
  · exact ⟨Nat.le_trans (by decide) hLow, Nat.le_trans hHigh (by decide)⟩
  · exact ⟨Nat.le_trans (by decide) hLow, Nat.le_trans hHigh (by decide)⟩
  · decide
  · decide

theorem isBlank_of_isNameChar {c : Char} (h : isNameChar c = true) : isBlank c = false := by
  have hRange := isNameChar_range h
  simp only [isBlank, Bool.or_eq_false_iff, Bool.and_eq_false_iff, decide_eq_false_iff_not,
    beq_eq_false_iff_ne]
  omega

/-- A word is found at the beginning exactly when a blank follows it. A
longer name that begins like the word is not mistaken for it. -/
theorem afterWord?_eq_some_iff {word : String} :
    afterWord? word text = some rest ↔
      ∃ c tail, text = word.toList ++ c :: tail ∧ isBlank c = true ∧ rest = trimStart tail := by
  unfold afterWord?
  constructor
  · intro h
    split at h
    · next c tail hAfter =>
        split at h
        · next hBlank =>
            exact ⟨c, tail, after?_eq_some_iff.mp hAfter, hBlank, by simpa [eq_comm] using h⟩
        · cases h
    · cases h
  · rintro ⟨c, tail, rfl, hBlank, rfl⟩
    rw [after?_eq_some_iff.mpr rfl]
    simp [hBlank]

/-- A name is all that is taken of it and of what belongs to no name behind
it. -/
theorem takeWhile_name (hName : isName name = true)
    (hRest : ∀ c, rest.head? = some c → isNameChar c = false) :
    (name ++ rest).takeWhile isNameChar = name ∧ (name ++ rest).dropWhile isNameChar = rest := by
  have hAll : ∀ c ∈ name, isNameChar c = true := fun _ hc => isNameChar_of_isName hName hc
  rw [List.takeWhile_append_of_pos hAll, List.dropWhile_append_of_pos hAll]
  cases rest with
  | nil => simp
  | cons c rest => simp [hRest c rfl]

/-- A text that a word is taken off begins with the name that the word is,
and a blank stands directly behind it. -/
theorem blank_of_afterWord? {word : String} (hWord : isName word.toList = true)
    (h : afterWord? word text = some rest) :
    text.takeWhile isNameChar = word.toList ∧
      ∃ c, (text.dropWhile isNameChar).head? = some c ∧ isBlank c = true := by
  obtain ⟨c, tail, rfl, hBlank, -⟩ := afterWord?_eq_some_iff.mp h
  have hNotName : isNameChar c = false := by
    rw [Bool.eq_false_iff]
    intro hName
    rw [isBlank_of_isNameChar hName] at hBlank
    cases hBlank
  obtain ⟨hTake, hDrop⟩ : (word.toList ++ c :: tail).takeWhile isNameChar = word.toList ∧
      (word.toList ++ c :: tail).dropWhile isNameChar = c :: tail := by
    apply takeWhile_name hWord
    rintro d ⟨⟩
    exact hNotName
  exact ⟨hTake, c, by rw [hDrop]; rfl, hBlank⟩

theorem ne_nil_of_isName (h : isName name = true) : name ≠ [] := by
  rintro rfl
  cases h

/-- A name has no blanks at its ends, since it has none at all. -/
theorem trimmed_of_isName (h : isName name = true) : Trimmed name where
  head := fun _ hHead => isBlank_of_isNameChar (isNameChar_of_isName h (List.mem_of_head? hHead))
  last := fun _ hLast => isBlank_of_isNameChar (isNameChar_of_isName h (List.mem_of_getLast? hLast))

/-- A character that belongs to no name does not stand in one. Brackets,
quotes and operators are kept out of names by this. -/
theorem not_mem_of_isName {c : Char} (h : isName name = true) (hc : isNameChar c = false) :
    c ∉ name := by
  intro hMem
  rw [isNameChar_of_isName h hMem] at hc
  cases hc

/-- A name does not begin with a character that belongs to no name. -/
theorem after?_eq_none_of_name {c : Char} {key : List Char} (hName : isName name = true)
    (hChar : isNameChar c = false) : after? (c :: key) (name ++ rest) = none := by
  cases hAfter : after? (c :: key) (name ++ rest) with
  | none => rfl
  | some found =>
      have hHead : (name ++ rest).head? = some c := by
        rw [after?_eq_some_iff.mp hAfter]
        rfl
      rw [List.head?_append_of_ne_nil _ (ne_nil_of_isName hName)] at hHead
      exact absurd (List.mem_of_head? hHead) (not_mem_of_isName hName hChar)

/-- A text whose first name is another word does not begin with that
word. -/
theorem afterWord?_eq_none_of_name {word : String} (hName : isName name = true)
    (hWord : isName word.toList = true) (hDiffers : name ≠ word.toList)
    (hRest : ∀ c, rest.head? = some c → isNameChar c = false) :
    afterWord? word (name ++ rest) = none := by
  cases hAfter : afterWord? word (name ++ rest) with
  | none => rfl
  | some found =>
      have hTake := (blank_of_afterWord? hWord hAfter).1
      rw [(takeWhile_name hName hRest).1] at hTake
      exact absurd hTake hDiffers

/-- No word stands before anything in a name. -/
theorem afterWord?_eq_none_of_isName {word : String} (h : isName name = true) :
    afterWord? word name = none := by
  cases hAfter : afterWord? word name with
  | none => rfl
  | some found =>
      obtain ⟨c, tail, rfl, hBlank, -⟩ := afterWord?_eq_some_iff.mp hAfter
      rw [isBlank_of_isNameChar (isNameChar_of_isName h (by simp))] at hBlank
      cases hBlank

/-- A name is one word, and so it is its own normal form. -/
theorem normalise_of_isName (h : isName name = true) : normalise name = name := by
  have hBlank : ∀ c ∈ name, isBlank c = false := by
    intro c hc
    exact isBlank_of_isNameChar (isNameChar_of_isName h hc)
  rw [normalise, words, List.splitOnP_eq_singleton hBlank]
  simp [ne_nil_of_isName h]

end ScriptBindings.Text
