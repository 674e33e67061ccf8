import ScriptBindings.Data.JsonToken

/-! Data written as JSON, on one line or indented by two spaces for each
level. Characters outside ASCII are written as they are. -/
namespace ScriptBindings.Json

def escapeChar (c : Char) : List Char :=
  if c == '"' then ['\\', '"']
  else if c == '\\' then ['\\', '\\']
  else if c == '\x08' then ['\\', 'b']
  else if c == '\x0c' then ['\\', 'f']
  else if c == '\n' then ['\\', 'n']
  else if c == '\r' then ['\\', 'r']
  else if c == '\t' then ['\\', 't']
  else if c.toNat < 0x20 then '\\' :: codeEscape false c
  else [c]

def quote (text : String) : String :=
  "\"" ++ String.ofList (text.toList.flatMap escapeChar) ++ "\""

mutual

/-- Write on one line without spaces. -/
def compact : Data → String
  | .null => "null"
  | .flag value => if value then "true" else "false"
  | .number written => written
  | .text value => quote value
  | .list items => "[" ++ ",".intercalate (compactItems items) ++ "]"
  | .record fields => "\x7b" ++ ",".intercalate (compactFields fields) ++ "\x7d"

def compactItems : List Data → List String
  | [] => []
  | item :: rest => compact item :: compactItems rest

def compactFields : List (String × Data) → List String
  | [] => []
  | (key, value) :: rest => (quote key ++ ":" ++ compact value) :: compactFields rest

end

def newline (level : Nat) : String :=
  "\n" ++ String.ofList (List.replicate (2 * level) ' ')

/-- The entries of a list or record, each on a line of its own at
`level + 1`. -/
def indented (level : Nat) (opener closer : String) (entries : List String) : String :=
  match entries with
  | [] => opener ++ closer
  | _ =>
      opener ++ newline (level + 1) ++ ("," ++ newline (level + 1)).intercalate entries ++
        newline level ++ closer

mutual

/-- Write over several lines, where the value begins at the given level. -/
def prettyAt : Nat → Data → String
  | _, .null => "null"
  | _, .flag value => if value then "true" else "false"
  | _, .number written => written
  | _, .text value => quote value
  | level, .list items => indented level "[" "]" (prettyItems (level + 1) items)
  | level, .record fields => indented level "\x7b" "\x7d" (prettyFields (level + 1) fields)

def prettyItems : Nat → List Data → List String
  | _, [] => []
  | level, item :: rest => prettyAt level item :: prettyItems level rest

def prettyFields : Nat → List (String × Data) → List String
  | _, [] => []
  | level, (key, value) :: rest =>
      (quote key ++ ": " ++ prettyAt level value) :: prettyFields level rest

end

def pretty (d : Data) : String :=
  prettyAt 0 d

end ScriptBindings.Json
