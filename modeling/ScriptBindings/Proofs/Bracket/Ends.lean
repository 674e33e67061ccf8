import ScriptBindings.Proofs.Bracket.Balance
import ScriptBindings.Proofs.Text.Naming

/-! Blanks and words at the ends of a balanced text. Neither is a bracket,
so the text stays balanced when they are taken away. -/
namespace ScriptBindings.Bracket

open Text

/-- The characters that a walk treats in a way of their own. -/
def marks : List Char :=
  ['(', ')', '[', ']', '<', '>', '\x7b', '\x7d', '"', '\'', '\x60', '=']

/-- The characters that are not plain are few, and a character is plain
unless it is one of them. -/
theorem isPlain_of_not_mem {c : Char} (h : c ∉ marks) : isPlain c = true := by
  simp only [marks, List.mem_cons, List.not_mem_nil, or_false, not_or] at h
  obtain ⟨h1, h2, h3, h4, h5, h6, h7, h8, h9, h10, h11, h12⟩ := h
  have hOpening : opening? c = none := by
    unfold opening?
    split <;> simp_all
  have hClosing : closing? c = none := by
    unfold closing?
    split <;> simp_all
  exact isPlain_iff.mpr ⟨hOpening, hClosing, by simp [isQuote, h9, h10, h11], h12⟩

/-- Blanks are plain, so that trimming never changes how the brackets of a
text are read. -/
theorem isPlain_of_isBlank {c : Char} (h : isBlank c = true) : isPlain c = true := by
  have hMarks : marks.all (!isBlank ·) = true := rfl
  exact isPlain_of_not_mem fun hMem => by simpa [h] using List.all_eq_true.mp hMarks c hMem

/-- Characters of names are plain as well: none of them opens, closes or
quotes anything. -/
theorem isPlain_of_isNameChar {c : Char} (h : isNameChar c = true) : isPlain c = true := by
  have hMarks : marks.all (!isNameChar ·) = true := rfl
  exact isPlain_of_not_mem fun hMem => by simpa [h] using List.all_eq_true.mp hMarks c hMem

/-- Names are plain through and through, so that a keyword never moves the
cursor. -/
theorem isPlain_of_isName {name : List Char} (h : isName name = true) :
    ∀ c ∈ name, isPlain c = true :=
  fun _ hc => isPlain_of_isNameChar (isNameChar_of_isName h hc)

/-- A character that separates nothing stands in one of the pieces, since
only the separators are left out of them. -/
theorem exists_mem_splitOn {c separator : Char} {text : List Char} (h : c ∈ text)
    (hDiffers : c ≠ separator) : ∃ piece ∈ text.splitOn separator, c ∈ piece := by
  induction text with
  | nil => cases h
  | cons d rest ih =>
      rw [List.splitOn, List.splitOnP_cons_eq_if_modifyHead]
      obtain ⟨first, later, hPieces⟩ :=
        List.exists_cons_of_ne_nil (List.splitOnP_ne_nil (· == separator) rest)
      rw [List.splitOn, hPieces] at ih
      rw [hPieces]
      rcases List.mem_cons.mp h with rfl | hRest
      · exact ⟨c :: first, by simp [hDiffers], List.mem_cons_self⟩
      · obtain ⟨piece, hPiece, hMem⟩ := ih hRest
        split
        · exact ⟨piece, List.mem_cons_of_mem _ hPiece, hMem⟩
        · rcases List.mem_cons.mp hPiece with rfl | hLater
          · exact ⟨d :: piece, List.mem_cons_self, List.mem_cons_of_mem d hMem⟩
          · exact ⟨piece, List.mem_cons_of_mem _ hLater, hMem⟩

/-- A dotted name and the blanks behind it hold no brackets. -/
theorem isPlain_of_dotted {front : List Char}
    (h : ((trimEnd front).splitOn '.').all isName = true) : ∀ c ∈ front, isPlain c = true := by
  obtain ⟨back, hFront, hBack⟩ := exists_trimEnd front
  intro c hMem
  rw [hFront, List.mem_append] at hMem
  rcases hMem with hName | hBlank
  · by_cases hDot : c = '.'
    · rw [hDot]
      decide
    · obtain ⟨piece, hPiece, hChar⟩ := exists_mem_splitOn hName hDot
      exact isPlain_of_isNameChar (isNameChar_of_isName (List.all_eq_true.mp h piece hPiece) hChar)
  · exact isPlain_of_isBlank (hBack c hBlank)

variable {text rest key : List Char}

namespace Balanced

/-- Trimming takes blanks off, which are plain, and so keeps a text
balanced. -/
theorem trimStart (h : Balanced text) : Balanced (trimStart text) := by
  obtain ⟨front, hText, hFront⟩ := exists_trimStart text
  rw [hText] at h
  exact (plain_append_iff fun c hc => isPlain_of_isBlank (hFront c hc)).mp h

theorem trimEnd (h : Balanced text) : Balanced (trimEnd text) := by
  obtain ⟨back, hText, hBack⟩ := exists_trimEnd text
  rw [hText] at h
  exact (append_plain_iff fun c hc => isPlain_of_isBlank (hBack c hc)).mp h

/-- A piece of a balanced text stays balanced when it is trimmed, which is
what the parser does before it reads on. -/
theorem trim (h : Balanced text) : Balanced (trim text) :=
  h.trimStart.trimEnd

/-- Taking a plain prefix off leaves balanced text. -/
theorem after? (h : Balanced text) (hKey : ∀ c ∈ key, isPlain c = true)
    (hAfter : after? key text = some rest) : Balanced rest := by
  rw [after?_eq_some_iff.mp hAfter] at h
  exact (plain_append_iff hKey).mp h

/-- So does taking a keyword off, in which case the blank behind it goes as
well. -/
theorem afterWord? {word : String} (h : Balanced text)
    (hWord : isName word.toList = true)
    (hAfter : afterWord? word text = some rest) : Balanced rest := by
  obtain ⟨c, tail, rfl, hBlank, rfl⟩ := afterWord?_eq_some_iff.mp hAfter
  have hTail := (plain_append_iff (isPlain_of_isName hWord)).mp h
  have hCons : ∀ d ∈ [c], isPlain d = true := by simpa using isPlain_of_isBlank hBlank
  exact ((plain_append_iff hCons).mp hTail).trimStart

end Balanced

end ScriptBindings.Bracket
