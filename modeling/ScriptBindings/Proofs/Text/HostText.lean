import Mathlib.Data.List.TakeWhile
import ScriptBindings.Text.Blank

/-! Lines and string literals as the host language reads them. Five
characters end a line, the newline being one of them. A string literal
stands on one line and ends at the first quote without a backslash before
it. -/
namespace ScriptBindings.HostText

def isLineEnd (c : Char) : Bool :=
  c == '\n' || c == '\r' || c == '\u0085' || c == '\u2028' || c == '\u2029'

def lines (text : List Char) : List (List Char) :=
  text.splitOnP isLineEnd

/-- What a character stands for behind a backslash. Escapes by number are
left out. -/
def escaped? (c : Char) : Option Char :=
  [('\x27', '\x27'), ('"', '"'), ('\\', '\\'), ('0', '\x00'), ('a', '\x07'), ('b', '\x08'),
    ('f', '\x0c'), ('n', '\n'), ('r', '\r'), ('t', '\t'), ('v', '\x0b')].lookup c

/-- The value of a literal behind its opening quote, and the text behind its
closing one. -/
def literalBody? : List Char → Option (List Char × List Char)
  | [] => none
  | '"' :: rest => some ([], rest)
  | '\\' :: c :: rest => do
      let value ← escaped? c
      let (text, behind) ← literalBody? rest
      return (value :: text, behind)
  | c :: rest => do
      if isLineEnd c then none
      let (text, behind) ← literalBody? rest
      return (c :: text, behind)

/-- The value of the literal that a text begins with, and the text behind
it. -/
def literal? : List Char → Option (List Char × List Char)
  | '"' :: rest => literalBody? rest
  | _ => none

/-- A literal that denotes a value ends where it is written to end, whatever
follows it. -/
def Denotes (literal value : List Char) : Prop :=
  ∀ rest, literal? (literal ++ rest) = some (value, rest)

/-- A text in quotes, with nothing escaped. -/
def quoted (text : List Char) : List Char :=
  '"' :: text ++ ['"']

/-- Characters that stand for themselves in a literal. -/
def isLiteralChar (c : Char) : Bool :=
  c != '"' && c != '\\' && !isLineEnd c

variable {text front rest : List Char} {c : Char}

/-- Whether a text is one line is seen by going through it. The host
language knows more ends of a line than the newline. -/
theorem not_lineEnd_of_any (h : text.any isLineEnd = false) : ∀ c ∈ text, isLineEnd c = false :=
  fun c hc => Bool.eq_false_iff.mpr (List.any_eq_false.mp h c hc)

/-- No piece of a cut text has a character that the text was cut at. -/
theorem not_of_mem_splitOnP {p : Char → Bool} {piece : List Char}
    (h : piece ∈ text.splitOnP p) : ∀ c ∈ piece, p c = false := by
  induction text generalizing piece with
  | nil =>
      rw [List.splitOnP_nil, List.mem_singleton] at h
      simp [h]
  | cons d rest ih =>
      rw [List.splitOnP_cons_eq_if_modifyHead] at h
      obtain ⟨first, later, hPieces⟩ := List.exists_cons_of_ne_nil (List.splitOnP_ne_nil p rest)
      rw [hPieces] at h ih
      split at h
      · rcases List.mem_cons.mp h with rfl | hRest
        · simp
        · exact ih hRest
      · next hd =>
          rcases List.mem_cons.mp h with rfl | hRest
          · exact List.forall_mem_cons.mpr ⟨Bool.eq_false_iff.mpr hd, ih List.mem_cons_self⟩
          · exact ih (List.mem_cons_of_mem _ hRest)

/-! ### Lines -/

/-- The lines of a text have no line end in them, of whatever kind. -/
theorem not_lineEnd_of_mem_lines {line : List Char} (h : line ∈ lines text) :
    ∀ c ∈ line, isLineEnd c = false :=
  not_of_mem_splitOnP h

/-- A text is cut at a line end into the lines before and the lines
behind. -/
theorem lines_append (hEnd : isLineEnd c = true) :
    lines (front ++ c :: rest) = lines front ++ lines rest :=
  List.splitOnP_append_cons front rest hEnd

theorem lines_of_line (h : ∀ c ∈ text, isLineEnd c = false) : lines text = [text] :=
  List.splitOnP_eq_singleton h

/-! ### Literals -/

/-- A character may stand in a literal by itself unless it ends the literal
or the line. -/
theorem isLiteralChar_iff (h : c ≠ '\\') :
    isLiteralChar c = true ↔ c ≠ '"' ∧ isLineEnd c = false := by
  simp [isLiteralChar, h]

theorem literalBody?_cons (h : isLiteralChar c = true) :
    literalBody? (c :: rest) =
      (literalBody? rest).map fun found => (c :: found.1, found.2) := by
  simp only [isLiteralChar, Bool.and_eq_true, bne_iff_ne, Bool.not_eq_true'] at h
  obtain ⟨⟨hQuote, hBackslash⟩, hLineEnd⟩ := h
  rw [literalBody?.eq_4 c rest hQuote (fun d behind hSame _ => hBackslash hSame), hLineEnd]
  cases literalBody? rest <;> rfl

/-- Such characters are read as the body of the literal, one by one. -/
theorem literalBody?_append (h : ∀ c ∈ front, isLiteralChar c = true) :
    literalBody? (front ++ rest) =
      (literalBody? rest).map fun found => (front ++ found.1, found.2) := by
  induction front with
  | nil => simp
  | cons c front ih =>
      rw [List.forall_mem_cons] at h
      rw [List.cons_append, literalBody?_cons h.1, ih h.2, Option.map_map]
      rfl

/-- A literal cannot go on behind the end of a line, and so the text is
refused. -/
theorem literalBody?_lineEnd (h : isLineEnd c = true) : literalBody? (c :: rest) = none := by
  have hOther : c ≠ '"' ∧ c ≠ '\\' := by
    constructor
    · rintro rfl
      cases h
    · rintro rfl
      cases h
  rw [literalBody?.eq_4 c rest hOther.1 (fun d behind hSame _ => hOther.2 hSame), h]
  rfl

/-- A text is read up to its first character that does not stand for
itself. -/
theorem exists_front (text : List Char) :
    (∀ c ∈ text, isLiteralChar c = true) ∨
      ∃ front c back, text = front ++ c :: back ∧ (∀ c ∈ front, isLiteralChar c = true) ∧
        isLiteralChar c = false := by
  cases hBack : text.dropWhile isLiteralChar with
  | nil => exact Or.inl (List.dropWhile_eq_nil_iff.mp hBack)
  | cons c back =>
      refine Or.inr ⟨text.takeWhile isLiteralChar, c, back, ?_, fun c => List.mem_takeWhile_imp, ?_⟩
      · rw [← hBack, List.takeWhile_append_dropWhile]
      · have hNot := List.head?_dropWhile_not isLiteralChar text
        rw [hBack] at hNot
        simpa using hNot

/-- A text without backslashes is denoted by itself in quotes exactly if it
has no quote and stands on one line. -/
theorem denotes_quoted_iff (hBackslash : '\\' ∉ text) :
    Denotes (quoted text) text ↔ ∀ c ∈ text, c ≠ '"' ∧ isLineEnd c = false := by
  have hPlain : ∀ c ∈ text, (isLiteralChar c = true ↔ c ≠ '"' ∧ isLineEnd c = false) :=
    fun c hc => isLiteralChar_iff fun hSame => hBackslash (hSame ▸ hc)
  have hRead (rest : List Char) :
      literal? (quoted text ++ rest) = literalBody? (text ++ '"' :: rest) := by
    rw [quoted, List.cons_append, List.cons_append, List.append_assoc]
    rfl
  constructor
  · intro hDenotes
    rcases exists_front text with hAll | ⟨front, c, back, rfl, hFront, hSpecial⟩
    · exact fun c hc => (hPlain c hc).mp (hAll c hc)
    -- What is read ends with the part in front, or is no literal.
    specialize hDenotes []
    rw [hRead, List.append_assoc, literalBody?_append hFront, List.cons_append] at hDenotes
    have hHere := (hPlain c (List.mem_append_right _ List.mem_cons_self)).not.mp
      (Bool.eq_false_iff.mp hSpecial)
    rw [not_and_or, not_not, Bool.not_eq_false] at hHere
    rcases hHere with rfl | hLineEnd
    · simp [literalBody?] at hDenotes
    · rw [literalBody?_lineEnd hLineEnd] at hDenotes
      cases hDenotes
  · intro h rest
    rw [hRead, literalBody?_append fun c hc => (hPlain c hc).mpr (h c hc)]
    simp [literalBody?]

end ScriptBindings.HostText
