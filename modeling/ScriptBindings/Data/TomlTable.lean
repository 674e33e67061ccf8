import ScriptBindings.Data.Basic

/-! Tables put together from headers and entries. A table may be opened once
by a header, and a header may lead through tables that exist. Dotted keys
make and extend tables of their own, but never one that a header has opened.
A value is never extended. -/
namespace ScriptBindings.Toml

/-- How a table came about: by a header of its own, on the way to the table
of another header, or by a dotted key. -/
inductive Origin where
  | header
  | implied
  | dotted
  deriving DecidableEq, Repr

/-- A value, a table under construction, or the rows of an array of
tables. -/
inductive Node where
  | value (data : Data)
  | table (origin : Origin) (entries : List (String × Node))
  | rows (tables : List (List (String × Node)))
  deriving Inhabited

abbrev Entries := List (String × Node)

namespace Entries

/-- Give the key this node, in its place if it has one and at the end if
not. -/
def set (key : String) (node : Node) : Entries → Entries
  | [] => [(key, node)]
  | entry :: rest => if entry.1 == key then (key, node) :: rest else entry :: set key node rest

/-- Change the table that the path leads to from a table of the given
origin. Keys that are missing on the way become tables, and arrays of tables
are entered at their last row. -/
def within (dotted : Bool) (change : Origin → Entries → Option Entries) :
    List String → Origin → Entries → Option Entries
  | [], origin, entries => change origin entries
  | key :: path, _, entries =>
      match entries.lookup key with
      | none => do
          let made := if dotted then Origin.dotted else .implied
          let table ← within dotted change path made []
          return entries.set key (.table made table)
      | some (.value _) => none
      | some (.rows tables) =>
          match tables.reverse with
          | [] => none
          | last :: earlier => do
              let table ← within dotted change path .header last
              return entries.set key (.rows (table :: earlier).reverse)
      | some (.table origin table) =>
          if dotted && origin == .header then none
          else do
            let table ← within dotted change path origin table
            return entries.set key (.table origin table)

/-- Put a value under a new key of the table that a dotted path leads to. -/
def put (path : List String) (key : String) (value : Data) (origin : Origin) (entries : Entries) :
    Option Entries :=
  within true
    (fun origin table =>
      if (origin == .dotted) == path.isEmpty || (table.lookup key).isSome then none
      else some (table.set key (.value value)))
    path origin entries

/-- Open the table of a header. -/
def openTable (path : List String) (key : String) (entries : Entries) : Option Entries :=
  within false
    (fun _ table =>
      match table.lookup key with
      | none => some (table.set key (.table .header []))
      | some (.table .implied inner) => some (table.set key (.table .header inner))
      | _ => none)
    path .header entries

/-- Open another row of an array of tables. -/
def openRow (path : List String) (key : String) (entries : Entries) : Option Entries :=
  within false
    (fun _ table =>
      match table.lookup key with
      | none => some (table.set key (.rows [[]]))
      | some (.rows tables) => some (table.set key (.rows (tables ++ [[]])))
      | _ => none)
    path .header entries

end Entries

mutual

def Node.data : Node → Data
  | .value data => data
  | .table _ entries => .record (fieldsOf entries)
  | .rows tables => .list (recordsOf tables)

def fieldsOf : List (String × Node) → List (String × Data)
  | [] => []
  | (key, node) :: rest => (key, node.data) :: fieldsOf rest

def recordsOf : List (List (String × Node)) → List Data
  | [] => []
  | entries :: rest => .record (fieldsOf entries) :: recordsOf rest

end

/-- A statement of a document: an entry, or the header of a table or of a
row. -/
inductive Statement where
  | entry (path : List String) (value : Data)
  | table (path : List String)
  | row (path : List String)
  deriving Inhabited

/-- A path as the way to a table and a key in it. -/
def splitPath : List String → Option (List String × String)
  | [] => none
  | key :: path => some (match splitPath path with
      | none => ([], key)
      | some (before, last) => (key :: before, last))

/-- Take in a statement, where `current` is the path of the last header. -/
def Statement.apply (current : List String) (entries : Entries) :
    Statement → Option (List String × Entries)
  | .entry path value => do
      let (before, key) ← splitPath path
      return (current, ← Entries.within false (Entries.put before key value) current .header entries)
  | .table path => do
      let (before, key) ← splitPath path
      return (path, ← entries.openTable before key)
  | .row path => do
      let (before, key) ← splitPath path
      return (path, ← entries.openRow before key)

/-- The record that the statements of a document denote. -/
def assemble? (statements : List Statement) : Option Data := do
  let (_, entries) ← statements.foldlM
    (fun (current, entries) statement => statement.apply current entries) ([], [])
  return .record (fieldsOf entries)

/-- The record of an inline table. -/
def inlineTable? (entries : List (List String × Data)) : Option Data :=
  assemble? (entries.map fun (path, value) => .entry path value)

end ScriptBindings.Toml
