import ScriptBindings.Data.TomlMoment
import ScriptBindings.Data.TomlTable

/-! TOML texts read as data. Values are strings, booleans, numbers, moments,
arrays and inline tables; the latter two nest only so deep. -/
namespace ScriptBindings.Toml

/-- The value that a text begins with, if it is neither an array nor a
table. -/
def scalar? (text : List Char) : Option (Data × List Char) :=
  match text with
  | 't' :: 'r' :: 'u' :: 'e' :: rest => some (.flag true, rest)
  | 'f' :: 'a' :: 'l' :: 's' :: 'e' :: rest => some (.flag false, rest)
  | _ =>
      match string? text with
      | some (content, rest) => some (.text (String.ofList content), rest)
      | none =>
          match moment? text with
          | some (moment, rest) => some (moment.toData, rest)
          | none => number? text

mutual

/-- The value a text begins with, and what follows it. Inside it, values may
nest `room` deep. -/
def valueWithin : Nat → Nat → List Char → Option (Data × List Char)
  | 0, _, _ => none
  | fuel + 1, room, text =>
      match text with
      | '[' :: rest => do
          guard (0 < room)
          let (items, more) ← itemsWithin fuel (room - 1) (dropGap rest)
          return (.list items, more)
      | '\x7b' :: rest => do
          guard (0 < room)
          match dropSpaces rest with
          | '\x7d' :: more => return (.record [], more)
          | _ =>
              let (entries, more) ← entriesWithin fuel (room - 1) rest
              return (← inlineTable? entries, more)
      | _ => scalar? text

/-- The items up to the end of an array. A comma may follow the last one. -/
def itemsWithin : Nat → Nat → List Char → Option (List Data × List Char)
  | 0, _, _ => none
  | fuel + 1, room, text =>
      match text with
      | ']' :: rest => some ([], rest)
      | _ => do
          let (item, rest) ← valueWithin fuel room text
          match dropGap rest with
          | ']' :: more => return ([item], more)
          | ',' :: more =>
              let (items, more) ← itemsWithin fuel room (dropGap more)
              return (item :: items, more)
          | _ => none

/-- One entry or more up to the end of an inline table, all on one line. -/
def entriesWithin : Nat → Nat → List Char → Option (List (List String × Data) × List Char)
  | 0, _, _ => none
  | fuel + 1, room, text => do
      let (path, rest) ← path? text
      match rest with
      | '=' :: rest =>
          let (value, rest) ← valueWithin fuel room (dropSpaces rest)
          match dropSpaces rest with
          | '\x7d' :: more => return ([(path, value)], more)
          | ',' :: more =>
              let (entries, more) ← entriesWithin fuel room more
              return ((path, value) :: entries, more)
          | _ => none
      | _ => none

end

/-- The statement of a line, and what follows it. -/
def statement? (text : List Char) : Option (Statement × List Char) :=
  match text with
  | '[' :: '[' :: rest => do
      let (path, more) ← path? rest
      match more with
      | ']' :: ']' :: more => return (.row path, more)
      | _ => none
  | '[' :: rest => do
      let (path, more) ← path? rest
      match more with
      | ']' :: more => return (.table path, more)
      | _ => none
  | _ => do
      let (path, rest) ← path? text
      match rest with
      | '=' :: rest =>
          let (value, more) ← valueWithin (2 * rest.length + 2) depthLimit (dropSpaces rest)
          return (.entry path value, more)
      | _ => none

/-- The statements of a text, one to a line. -/
def statementsWithin : Nat → List Char → Option (List Statement)
  | 0, _ => none
  | fuel + 1, text =>
      match dropGap text with
      | [] => some []
      | rest => do
          let (statement, more) ← statement? rest
          return statement :: (← statementsWithin fuel (← endLine? more))

def statements? (text : List Char) : Option (List Statement) :=
  statementsWithin (text.length + 1) text

/-- Read a TOML text. A byte order mark in front of it is no part of it. -/
def parse? (text : String) : Option Data :=
  let content :=
    match text.toList with
    | '\uFEFF' :: rest => rest
    | content => content
  (statements? content).bind assemble?

end ScriptBindings.Toml
