import ScriptBindings.Data.Basic

/-! The tokens of a JSON text. Between tokens only spaces, tabs and line
ends may stand. String escapes are resolved here; a surrogate that is not
half of a pair, or a control character that is not escaped, is no part of
any token. -/
namespace ScriptBindings.Json

inductive Token where
  | openRecord
  | closeRecord
  | openList
  | closeList
  | colon
  | comma
  | null
  | flag (value : Bool)
  | number (written : String)
  | text (value : String)
  deriving DecidableEq, Repr

def hexDigit? (c : Char) : Option Nat :=
  if '0' ≤ c && c ≤ '9' then some (c.toNat - '0'.toNat)
  else if 'a' ≤ c && c ≤ 'f' then some (c.toNat - 'a'.toNat + 10)
  else if 'A' ≤ c && c ≤ 'F' then some (c.toNat - 'A'.toNat + 10)
  else none

/-- A hexadecimal digit, in upper or in lower case. -/
def hexDigit (upper : Bool) (n : Nat) : Char :=
  (if upper then "0123456789ABCDEF" else "0123456789abcdef").toList.getD n '0'

/-- What is written behind a backslash for a character below `0x100`: its
code. -/
def codeEscape (upper : Bool) (c : Char) : List Char :=
  ['u', '0', '0', hexDigit upper (c.toNat / 16), hexDigit upper (c.toNat % 16)]

/-- The number that hexadecimal digits write. -/
def hexValue? (digits : List Char) : Option Nat :=
  digits.foldlM (fun value c => (hexDigit? c).map (16 * value + ·)) 0

def isHighSurrogate (code : Nat) : Bool :=
  0xD800 ≤ code && code < 0xDC00

def isLowSurrogate (code : Nat) : Bool :=
  0xDC00 ≤ code && code < 0xE000

/-- The character of an escape and what follows it; the backslash is already
read. -/
def escape? : List Char → Option (Char × List Char)
  | '"' :: rest => some ('"', rest)
  | '\\' :: rest => some ('\\', rest)
  | '/' :: rest => some ('/', rest)
  | 'b' :: rest => some ('\x08', rest)
  | 'f' :: rest => some ('\x0c', rest)
  | 'n' :: rest => some ('\n', rest)
  | 'r' :: rest => some ('\r', rest)
  | 't' :: rest => some ('\t', rest)
  | 'u' :: a :: b :: c :: d :: rest => do
      let code ← hexValue? [a, b, c, d]
      if isHighSurrogate code then
        match rest with
        | '\\' :: 'u' :: e :: f :: g :: h :: rest =>
            let low ← hexValue? [e, f, g, h]
            if isLowSurrogate low then
              some (Char.ofNat (0x10000 + (code - 0xD800) * 0x400 + (low - 0xDC00)), rest)
            else none
        | _ => none
      else if isLowSurrogate code then none
      else some (Char.ofNat code, rest)
  | _ => none

theorem length_escape?_lt {text rest : List Char} {c : Char} (h : escape? text = some (c, rest)) :
    rest.length < text.length := by
  unfold escape? at h
  split at h
  case h_10 => simp at h
  case h_9 =>
    simp only [bind, Option.bind_eq_some_iff] at h
    obtain ⟨code, -, h⟩ := h
    split at h
    · split at h
      · simp only [Option.bind_eq_some_iff] at h
        obtain ⟨low, -, h⟩ := h
        split at h
        · simp only [Option.some.injEq, Prod.mk.injEq] at h
          obtain ⟨-, rfl⟩ := h
          simp only [List.length_cons]
          omega
        · simp at h
      · simp at h
    · split at h
      · simp at h
      · simp only [Option.some.injEq, Prod.mk.injEq] at h
        obtain ⟨-, rfl⟩ := h
        simp only [List.length_cons]
        omega
  all_goals
    simp only [Option.some.injEq, Prod.mk.injEq] at h
    obtain ⟨-, rfl⟩ := h
    simp

/-- The content of a string and what follows its closing quote; the opening
quote is already read. -/
def string? (text : List Char) : Option (List Char × List Char) :=
  match text with
  | [] => none
  | '"' :: rest => some ([], rest)
  | '\\' :: rest =>
      match _escape : escape? rest with
      | some (c, after) => (string? after).map fun (content, more) => (c :: content, more)
      | none => none
  | c :: rest =>
      if c.toNat < 0x20 then none
      else (string? rest).map fun (content, more) => (c :: content, more)
termination_by text.length
decreasing_by
  · have := length_escape?_lt _escape
    simp only [List.length_cons]
    omega
  · simp

/-- The digits a text begins with, of which there must be one. -/
def digits? (text : List Char) : Option (List Char × List Char) :=
  match text.takeWhile Char.isDigit with
  | [] => none
  | digits => some (digits, text.dropWhile Char.isDigit)

/-- The digits before the point: a zero stands alone. -/
def integer? : List Char → Option (List Char × List Char)
  | '0' :: rest => some (['0'], rest)
  | text => digits? text

def fraction? : List Char → Option (List Char × List Char)
  | '.' :: rest => (digits? rest).map fun (digits, more) => ('.' :: digits, more)
  | text => some ([], text)

def exponent? : List Char → Option (List Char × List Char)
  | e :: rest =>
      if e == 'e' || e == 'E' then
        match rest with
        | sign :: after =>
            if sign == '+' || sign == '-' then
              (digits? after).map fun (digits, more) => (e :: sign :: digits, more)
            else
              (digits? rest).map fun (digits, more) => (e :: digits, more)
        | [] => none
      else
        some ([], e :: rest)
  | [] => some ([], [])

def number? (text : List Char) : Option (List Char × List Char) := do
  let (sign, rest) :=
    match text with
    | '-' :: rest => (['-'], rest)
    | _ => ([], text)
  let (whole, rest) ← integer? rest
  let (fraction, rest) ← fraction? rest
  let (exponent, rest) ← exponent? rest
  return (sign ++ whole ++ fraction ++ exponent, rest)

def isSpace (c : Char) : Bool :=
  c == ' ' || c == '\t' || c == '\n' || c == '\r'

/-- The token a text begins with, and what follows it. -/
def token? : List Char → Option (Token × List Char)
  | '\x7b' :: rest => some (.openRecord, rest)
  | '\x7d' :: rest => some (.closeRecord, rest)
  | '[' :: rest => some (.openList, rest)
  | ']' :: rest => some (.closeList, rest)
  | ':' :: rest => some (.colon, rest)
  | ',' :: rest => some (.comma, rest)
  | 'n' :: 'u' :: 'l' :: 'l' :: rest => some (.null, rest)
  | 't' :: 'r' :: 'u' :: 'e' :: rest => some (.flag true, rest)
  | 'f' :: 'a' :: 'l' :: 's' :: 'e' :: rest => some (.flag false, rest)
  | '"' :: rest => (string? rest).map fun (content, more) => (.text (String.ofList content), more)
  | text => (number? text).map fun (written, more) => (.number (String.ofList written), more)

/-- At most `fuel` tokens, which must be all of the text. -/
def tokensWithin : Nat → List Char → Option (List Token)
  | _, [] => some []
  | 0, _ :: _ => none
  | fuel + 1, c :: rest =>
      if isSpace c then tokensWithin fuel rest
      else do
        let (token, more) ← token? (c :: rest)
        return token :: (← tokensWithin fuel more)

/-- The tokens of a text. Each takes at least one character. -/
def tokens? (text : List Char) : Option (List Token) :=
  tokensWithin text.length text

end ScriptBindings.Json
