import ScriptBindings.SortedEntries

/-! The table of host types that replace others. Keys are canonical texts of
type expressions; the table holds each key once, in increasing order. -/
namespace ScriptBindings

/-- A type parameter that an override adds to every method using it. -/
structure OverrideGeneric where
  name : String
  constraint : Option String
  deriving DecidableEq, Repr

/-- A host type, alone or with the type parameters its text relies on. -/
inductive TypeOverride where
  | plain (host : String)
  | generic (host : String) (generics : List OverrideGeneric)
  deriving DecidableEq, Repr

namespace TypeOverride

def host : TypeOverride → String
  | .plain host | .generic host _ => host

def generics : TypeOverride → List OverrideGeneric
  | .plain _ => []
  | .generic _ generics => generics

end TypeOverride

structure OverrideTable where
  entries : List (String × TypeOverride)
  sorted : SortedEntries.Sorted entries
  deriving DecidableEq

namespace OverrideTable

def empty : OverrideTable :=
  ⟨[], .nil⟩

instance : Inhabited OverrideTable :=
  ⟨empty⟩

def find? (table : OverrideTable) (key : String) : Option TypeOverride :=
  table.entries.lookup key

def insert (table : OverrideTable) (key : String) (value : TypeOverride) : OverrideTable :=
  ⟨SortedEntries.insert key value table.entries,
    SortedEntries.sorted_insert key value table.sorted⟩

/-- Of two entries with one key the later one is kept. -/
def ofList (entries : List (String × TypeOverride)) : OverrideTable :=
  entries.foldl (fun table entry => table.insert entry.1 entry.2) empty

end OverrideTable

end ScriptBindings
