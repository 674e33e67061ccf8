import Mathlib.Data.List.Basic
import ScriptBindings.Data.JsonParser
import ScriptBindings.Data.JsonPrinter

/-! JSON strings read back. The printer writes each character as an escape
or as itself, and the reader takes one character from what is written of
one. -/
namespace ScriptBindings.Json

variable {text rest : List Char}

/-- A digit is read back, in whatever case it is. -/
theorem hexDigit?_hexDigit (upper : Bool) :
    ∀ n < 16, hexDigit? (hexDigit upper n) = some n := by
  cases upper <;> decide

/-- Two digits behind two zeros write any code below 256. -/
theorem hexValue?_hexDigits (upper : Bool) {n : Nat} (h : n < 0x100) :
    hexValue? ['0', '0', hexDigit upper (n / 16), hexDigit upper (n % 16)] = some n := by
  have hZero : hexDigit? '0' = some 0 := by decide
  have hHigh := hexDigit?_hexDigit upper (n / 16) (by omega)
  have hLow := hexDigit?_hexDigit upper (n % 16) (by omega)
  simp only [hexValue?, List.foldlM_cons, List.foldlM_nil, hZero, hHigh, hLow, Option.map_some,
    Option.bind_eq_bind, Option.bind_some, Option.pure_def, Option.some.injEq]
  omega

/-- A code with four digits is read as its character, in capitals or not. -/
theorem escape?_codeEscape (upper : Bool) {c : Char} (h : c.toNat < 0x100) (rest : List Char) :
    escape? (codeEscape upper c ++ rest) = some (c, rest) := by
  have hValue := hexValue?_hexDigits upper h
  have hHigh : isHighSurrogate c.toNat = false := by simp [isHighSurrogate]; omega
  have hLow : isLowSurrogate c.toNat = false := by simp [isLowSurrogate]; omega
  simp [codeEscape, escape?, hValue, hHigh, hLow, Char.ofNat_toNat]

theorem string?_escape {c : Char} {more : List Char} (h : escape? text = some (c, more)) :
    string? ('\\' :: text) =
      (string? more).map fun (content, behind) => (c :: content, behind) := by
  rw [string?]
  split
  · next hFound =>
      rw [h] at hFound
      cases hFound
      rfl
  · next hNone =>
      rw [h] at hNone
      cases hNone

/-- A character is read back from what it is written as. -/
theorem string?_escapeChar (c : Char) (more : List Char) :
    string? (escapeChar c ++ more) =
      (string? more).map fun (content, behind) => (c :: content, behind) := by
  unfold escapeChar
  split_ifs with hQuote hBackslash hBack hFeed hLine hReturn hTab hControl
  · obtain rfl := eq_of_beq hQuote
    exact string?_escape rfl
  · obtain rfl := eq_of_beq hBackslash
    exact string?_escape rfl
  · obtain rfl := eq_of_beq hBack
    exact string?_escape rfl
  · obtain rfl := eq_of_beq hFeed
    exact string?_escape rfl
  · obtain rfl := eq_of_beq hLine
    exact string?_escape rfl
  · obtain rfl := eq_of_beq hReturn
    exact string?_escape rfl
  · obtain rfl := eq_of_beq hTab
    exact string?_escape rfl
  · exact string?_escape (escape?_codeEscape false (by omega) more)
  · rw [beq_iff_eq] at hQuote hBackslash
    rw [List.singleton_append, string?, if_neg hControl]
    · exact hQuote
    · exact hBackslash

/-- What stands between the quotes is read back, up to the closing one. -/
theorem string?_quote (content rest : List Char) :
    string? (content.flatMap escapeChar ++ '"' :: rest) = some (content, rest) := by
  induction content with
  | nil => rw [List.flatMap_nil, List.nil_append, string?]
  | cons c content ih =>
      rw [List.flatMap_cons, List.append_assoc, string?_escapeChar, ih]
      rfl

end ScriptBindings.Json
