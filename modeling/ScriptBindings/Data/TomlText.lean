import ScriptBindings.Data.JsonToken

/-! Strings, keys and the gaps of a TOML text. There are four kinds of
strings: with or without escapes, on one line or on several. A line ends
with a newline or a carriage return and a newline, and both become a newline
inside a string. -/
namespace ScriptBindings.Toml

def isSpace (c : Char) : Bool :=
  c == ' ' || c == '\t'

/-- Characters that may stand for themselves in comments and strings. -/
def isPrintable (c : Char) : Bool :=
  c == '\t' || (0x20 ≤ c.toNat && c.toNat != 0x7F)

def dropSpaces (text : List Char) : List Char :=
  text.dropWhile isSpace

/-- What follows a line end. -/
def lineEnd? : List Char → Option (List Char)
  | '\n' :: rest => some rest
  | '\r' :: '\n' :: rest => some rest
  | _ => none

def dropLineEnd (text : List Char) : List Char :=
  (lineEnd? text).getD text

def dropComment : List Char → List Char
  | '#' :: rest => rest.dropWhile isPrintable
  | text => text

/-- What follows the line, of which only spaces and a comment may be
left. -/
def endLine? (text : List Char) : Option (List Char) :=
  match dropComment (dropSpaces text) with
  | [] => some []
  | rest => lineEnd? rest

theorem length_lineEnd?_lt {text rest : List Char} (h : lineEnd? text = some rest) :
    rest.length < text.length := by
  unfold lineEnd? at h
  split at h
  · cases h
    simp
  · cases h
    simp only [List.length_cons]
    omega
  · cases h

theorem length_dropSpaces_le (text : List Char) : (dropSpaces text).length ≤ text.length :=
  (List.dropWhile_sublist isSpace).length_le

theorem length_dropComment_le (text : List Char) : (dropComment text).length ≤ text.length := by
  unfold dropComment
  split
  · have := (List.dropWhile_sublist isPrintable (l := ‹List Char›)).length_le
    simp only [List.length_cons]
    omega
  · exact Nat.le_refl _

/-- Drop spaces, line ends and comments; a comment reaches to the end of its
line. -/
def dropGap (text : List Char) : List Char :=
  match _end : lineEnd? (dropComment (dropSpaces text)) with
  | some more => dropGap more
  | none => dropComment (dropSpaces text)
termination_by text.length
decreasing_by
  have := length_lineEnd?_lt _end
  have := length_dropComment_le (dropSpaces text)
  have := length_dropSpaces_le text
  omega

/-- A code point as a character, unless it is half of a surrogate pair or
too large. -/
def charOfCode? (code : Nat) : Option Char :=
  if h : code.isValidChar then some (Char.ofNatAux code h) else none

/-- The character of an escape and what follows it; the backslash is already
read. -/
def escape? : List Char → Option (Char × List Char)
  | 'b' :: rest => some ('\x08', rest)
  | 't' :: rest => some ('\t', rest)
  | 'n' :: rest => some ('\n', rest)
  | 'f' :: rest => some ('\x0c', rest)
  | 'r' :: rest => some ('\r', rest)
  | '"' :: rest => some ('"', rest)
  | '\\' :: rest => some ('\\', rest)
  | 'u' :: rest => digitsEscape? 4 rest
  | 'U' :: rest => digitsEscape? 8 rest
  | _ => none
where
  digitsEscape? (count : Nat) (text : List Char) : Option (Char × List Char) := do
    guard (count ≤ text.length)
    let code ← Json.hexValue? (text.take count)
    return (← charOfCode? code, text.drop count)

/-- Add a character to the content of a string that goes on behind it. -/
def consContent (c : Char) (found : Option (List Char × List Char)) :
    Option (List Char × List Char) :=
  found.map fun (content, rest) => (c :: content, rest)

/-- The content of a one-line string with escapes; the opening quote is
read. -/
def basicWithin : Nat → List Char → Option (List Char × List Char)
  | 0, _ => none
  | _ + 1, [] => none
  | _ + 1, '"' :: rest => some ([], rest)
  | fuel + 1, '\\' :: rest => do
      let (c, more) ← escape? rest
      consContent c (basicWithin fuel more)
  | fuel + 1, c :: rest =>
      if isPrintable c then consContent c (basicWithin fuel rest) else none

/-- The content of a one-line string without escapes; the opening quote is
read. -/
def literal? : List Char → Option (List Char × List Char)
  | [] => none
  | '\'' :: rest => some ([], rest)
  | c :: rest => if isPrintable c then consContent c (literal? rest) else none

/-- Up to two quotes directly before the closing three belong to the
content. -/
def closingQuotes (quote : Char) : List Char → List Char × List Char
  | a :: b :: rest =>
      if a == quote && b == quote then ([a, b], rest)
      else if a == quote then ([a], b :: rest)
      else ([], a :: b :: rest)
  | [a] => if a == quote then ([a], []) else ([], [a])
  | [] => ([], [])

/-- Drop spaces and line ends. -/
def dropBreaks : List Char → List Char
  | '\n' :: rest => dropBreaks rest
  | '\r' :: '\n' :: rest => dropBreaks rest
  | c :: rest => if isSpace c then dropBreaks rest else c :: rest
  | [] => []

/-- What follows the line break that a backslash at the end of a line joins:
the next character that is neither space nor line end. -/
def lineJoin? (text : List Char) : Option (List Char) :=
  (lineEnd? (dropSpaces text)).map dropBreaks

/-- The content of a string over several lines with escapes. -/
def longBasicWithin : Nat → List Char → Option (List Char × List Char)
  | 0, _ => none
  | _ + 1, [] => none
  | _ + 1, '"' :: '"' :: '"' :: rest => some (closingQuotes '"' rest)
  | fuel + 1, '\\' :: rest =>
      match lineJoin? rest with
      | some more => longBasicWithin fuel more
      | none => do
          let (c, more) ← escape? rest
          consContent c (longBasicWithin fuel more)
  | fuel + 1, '\r' :: '\n' :: rest => consContent '\n' (longBasicWithin fuel rest)
  | fuel + 1, c :: rest =>
      if isPrintable c || c == '\n' then consContent c (longBasicWithin fuel rest) else none

/-- The content of a string over several lines without escapes. -/
def longLiteral? : List Char → Option (List Char × List Char)
  | [] => none
  | '\'' :: '\'' :: '\'' :: rest => some (closingQuotes '\'' rest)
  | '\r' :: '\n' :: rest => consContent '\n' (longLiteral? rest)
  | c :: rest =>
      if isPrintable c || c == '\n' then consContent c (longLiteral? rest) else none

def basic? (text : List Char) : Option (List Char × List Char) :=
  basicWithin (text.length + 1) text

def longBasic? (text : List Char) : Option (List Char × List Char) :=
  longBasicWithin (text.length + 1) text

/-- The string a text begins with. A line end directly behind three opening
quotes is no content. -/
def string? : List Char → Option (List Char × List Char)
  | '"' :: '"' :: '"' :: rest => longBasic? (dropLineEnd rest)
  | '"' :: rest => basic? rest
  | '\'' :: '\'' :: '\'' :: rest => longLiteral? (dropLineEnd rest)
  | '\'' :: rest => literal? rest
  | _ => none

def isBareKeyChar (c : Char) : Bool :=
  c.isAlphanum || c == '_' || c == '-'

/-- One key: bare or a string on one line. -/
def key? : List Char → Option (String × List Char)
  | '"' :: rest => (basic? rest).map fun (content, more) => (String.ofList content, more)
  | '\'' :: rest => (literal? rest).map fun (content, more) => (String.ofList content, more)
  | text =>
      match text.takeWhile isBareKeyChar with
      | [] => none
      | key => some (String.ofList key, text.dropWhile isBareKeyChar)

/-- Keys joined by dots, and what follows them and the spaces behind
them. -/
def keysWithin : Nat → List Char → Option (List String × List Char)
  | 0, _ => none
  | fuel + 1, text => do
      let (key, rest) ← key? (dropSpaces text)
      match dropSpaces rest with
      | '.' :: more =>
          let (keys, rest) ← keysWithin fuel more
          return (key :: keys, rest)
      | rest => return ([key], rest)

/-- How deep values may nest, and how many keys a path may have. -/
def depthLimit : Nat :=
  79

/-- The path a text begins with; it has at least one key. -/
def path? (text : List Char) : Option (List String × List Char) := do
  let (keys, rest) ← keysWithin (text.length + 1) text
  guard (keys.length ≤ depthLimit)
  return (keys, rest)

end ScriptBindings.Toml
