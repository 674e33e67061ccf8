import ScriptBindings.Data.Basic
import ScriptBindings.Data.TomlText

/-! Data written as TOML. The values of a table come first, then its tables,
each under a header of its own behind a blank line. TOML has no `null`: a
field without a value is not written. -/
namespace ScriptBindings.Toml

/-- The length of the longest run of a character. -/
def longestRun (c : Char) (text : List Char) : Nat :=
  let runs := text.foldl
    (fun (longest, current) d =>
      let next := if d == c then current + 1 else 0
      (max longest next, next))
    (0, 0)
  runs.1

/-- Control characters that only an escape can write. Tabs and newlines have
their own rules. -/
def needsCode (c : Char) : Bool :=
  (c.toNat < 0x20 && c != '\t' && c != '\n') || c.toNat == 0x7F

/-- A character of a string with escapes. Newlines stand for themselves if
the string has several lines. -/
def escapeChar (long : Bool) (c : Char) : List Char :=
  if c == '\x08' then ['\\', 'b']
  else if c == '\t' then ['\\', 't']
  else if c == '\n' then if long then [c] else ['\\', 'n']
  else if c == '\x0c' then ['\\', 'f']
  else if c == '\r' then ['\\', 'r']
  else if c == '\\' then ['\\', '\\']
  else if needsCode c then '\\' :: Json.codeEscape true c
  else [c]

/-- Escape a text in which at most `limit` quotes may stand together. -/
def escapeFrom (long : Bool) (limit : Nat) : Nat → List Char → List Char
  | _, [] => []
  | quotes, '"' :: rest =>
      if quotes < limit then '"' :: escapeFrom long limit (quotes + 1) rest
      else '\\' :: '"' :: escapeFrom long limit 0 rest
  | _, c :: rest => escapeChar long c ++ escapeFrom long limit 0 rest

/-- The kinds of strings, by their quotes and by whether they know
escapes. -/
inductive StringKind where
  | basic
  | literal
  | longBasic
  | longLiteral
  deriving DecidableEq, Repr

/-- The first kind that writes the text as it is; if none does, a kind with
escapes. -/
def StringKind.of (text : List Char) : StringKind :=
  let codes := text.any needsCode
  let escapes := text.contains '\\'
  let newline := text.contains '\n'
  let double := longestRun '"' text
  let single := longestRun '\'' text
  if !codes && !escapes && double == 0 && !newline then .basic
  else if !codes && single == 0 && !newline then .literal
  else if !codes && !escapes && double ≤ 2 then .longBasic
  else if !codes && single ≤ 2 then .longLiteral
  else if newline then .longBasic
  else .basic

def StringKind.write (kind : StringKind) (text : List Char) : List Char :=
  let opening := if text.contains '\n' then ['\n'] else []
  match kind with
  | .basic => '"' :: escapeFrom false 0 0 text ++ ['"']
  | .literal => '\'' :: text ++ ['\'']
  | .longBasic => ['"', '"', '"'] ++ opening ++ escapeFrom true 2 0 text ++ ['"', '"', '"']
  | .longLiteral => ['\'', '\'', '\''] ++ opening ++ text ++ ['\'', '\'', '\'']

def quote (text : String) : String :=
  String.ofList ((StringKind.of text.toList).write text.toList)

/-- The kind of string a key is written as. Keys have one line. -/
def StringKind.ofKey (text : List Char) : StringKind :=
  let codes := text.any fun c => needsCode c || c == '\n'
  if !codes && !text.contains '\\' && !text.contains '"' then .basic
  else if !codes && !text.contains '\'' then .literal
  else .basic

def quoteKey (key : String) : String :=
  let text := key.toList
  if !text.isEmpty && text.all isBareKeyChar then key
  else String.ofList ((StringKind.ofKey text).write text)

def quotePath (path : List String) : String :=
  ".".intercalate (path.map quoteKey)

def listText (items : List String) : String :=
  match items with
  | [] => "[]"
  | [item] => "[" ++ item ++ "]"
  | _ => "[\n" ++ String.join (items.map fun item => "    " ++ item ++ ",\n") ++ "]"

mutual

/-- A value on the right of `=`. -/
def valueText : Data → String
  | .null => ""
  | .flag value => if value then "true" else "false"
  | .number written => written
  | .text value => quote value
  | .list items => listText (itemTexts items)
  | .record fields => "\x7b " ++ ", ".intercalate (fieldTexts fields) ++ " \x7d"

def itemTexts : List Data → List String
  | [] => []
  | item :: rest => valueText item :: itemTexts rest

def fieldTexts : List (String × Data) → List String
  | [] => []
  | (key, value) :: rest => (quoteKey key ++ " = " ++ valueText value) :: fieldTexts rest

end

/-- Whether a value is written under headers of its own: a record, or a list
of records that is not empty. -/
def isSection : Data → Bool
  | .record _ => true
  | .list (item :: items) => (item :: items).all (·.isRecord)
  | _ => false

/-- The lines of a table that need no header of their own. -/
def plainLines (fields : List (String × Data)) : List String :=
  (fields.filter fun (_, value) => !isSection value && !value.isNull).map
    fun (key, value) => quoteKey key ++ " = " ++ valueText value ++ "\n"

/-- The lines under a header. A table shows its header if it has lines of
its own, or nothing at all. -/
def tableBlock (path : List String) (fields : List (String × Data)) : List String :=
  let own := plainLines fields
  if own.isEmpty && !fields.isEmpty then []
  else ["[" ++ quotePath path ++ "]\n" ++ String.join own]

def rowBlock (path : List String) (fields : List (String × Data)) : List String :=
  ["[[" ++ quotePath path ++ "]]\n" ++ String.join (plainLines fields)]

mutual

/-- The blocks of a value that is written under headers. -/
def sectionBlocks (path : List String) : Data → List String
  | .record fields => tableBlock path fields ++ fieldBlocks path fields
  | .list items => rowBlocks path items
  | _ => []

def fieldBlocks (path : List String) : List (String × Data) → List String
  | [] => []
  | (key, value) :: rest =>
      (if isSection value then sectionBlocks (path ++ [key]) value else []) ++ fieldBlocks path rest

def rowBlocks (path : List String) : List Data → List String
  | [] => []
  | .record fields :: rest =>
      rowBlock path fields ++ fieldBlocks path fields ++ rowBlocks path rest
  | _ :: rest => rowBlocks path rest

end

/-- Write a record as a document. -/
def print (fields : List (String × Data)) : String :=
  let own := plainLines fields
  "\n".intercalate ((if own.isEmpty then [] else [String.join own]) ++ fieldBlocks [] fields)

end ScriptBindings.Toml
