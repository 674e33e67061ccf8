import ScriptBindings.SortedEntries
import ScriptBindings.Storage.Basic

/-! Files and directories as values. The entries of a well-formed directory
have proper names, which increase; a change of one directory keeps the whole
tree well formed if it keeps that directory so. -/
namespace ScriptBindings

inductive Node where
  | file (content : ByteArray)
  | directory (entries : List (String × Node))
  deriving Inhabited

/-- A name that an entry can have: one segment of a path that leads to an
entry. -/
def isEntryName (name : String) : Bool :=
  name != "" && name != "." && name != ".." && !name.toList.contains '/' &&
    !name.toList.contains '\x00' && name.utf8ByteSize ≤ nameLimit

namespace Node

abbrev Entries := List (String × Node)

/-- A place in a tree: the names that lead to it. -/
abbrev Place := List String

def kind : Node → EntryKind
  | .file _ => .file
  | .directory _ => .directory

inductive WellFormed : Node → Prop where
  | file (content : ByteArray) : WellFormed (.file content)
  | directory {entries : Entries} (sorted : SortedEntries.Sorted entries)
      (named : ∀ entry ∈ entries, isEntryName entry.1 = true)
      (below : ∀ entry ∈ entries, WellFormed entry.2) : WellFormed (.directory entries)

mutual

/-- What is seen below a path. No directory with too long a path can be
opened. -/
def listing (path : String) : Node → Listing
  | .file _ => .file
  | .directory entries =>
      .directory (if pathLimit < path.utf8ByteSize then [] else listings path entries)

def listings (path : String) : Entries → List (String × Listing)
  | [] => []
  | (name, node) :: rest => (name, node.listing (Path.join path name)) :: listings path rest

end

/-- The node at a place. -/
def get? : Node → Place → Option Node
  | node, [] => some node
  | .file _, _ :: _ => none
  | .directory entries, name :: rest => (entries.lookup name).bind (·.get? rest)

theorem get?_concat {node : Node} {place : Place} {entries : Entries}
    (h : node.get? place = some (.directory entries)) (name : String) :
    node.get? (place ++ [name]) = entries.lookup name := by
  induction place generalizing node with
  | nil =>
      obtain rfl : node = .directory entries := by simpa [get?] using h
      simp only [List.nil_append, get?]
      cases entries.lookup name <;> simp
  | cons first rest ih =>
      cases node with
      | file content => simp [get?] at h
      | directory inner =>
          simp only [get?, List.cons_append] at h ⊢
          obtain ⟨below, found, leads⟩ := Option.bind_eq_some_iff.1 h
          rw [found]
          exact ih leads

/-- Change the entries of the directory at a place; if there is none,
nothing changes. -/
def changeAt (change : Entries → Entries) : Place → Entries → Entries
  | [], entries => change entries
  | name :: rest, entries =>
      match entries.lookup name with
      | some (.directory inner) =>
          SortedEntries.insert name (.directory (changeAt change rest inner)) entries
      | _ => entries

mutual

/-- Every path below a directory, where those of directories end with a
slash. -/
def pathsBelow (base : String) : Node → List String
  | .file _ => []
  | .directory entries => pathsOf base entries

def pathsOf (base : String) : Entries → List String
  | [] => []
  | (name, .file _) :: rest => (base ++ name) :: pathsOf base rest
  | (name, .directory entries) :: rest =>
      (base ++ name ++ "/") :: pathsOf (base ++ name ++ "/") entries ++ pathsOf base rest

end

namespace WellFormed

theorem empty : WellFormed (.directory []) :=
  .directory .nil (by simp) (by simp)

theorem insert {name : String} {node : Node} {entries : Entries}
    (h : WellFormed (.directory entries)) (named : isEntryName name = true)
    (formed : node.WellFormed) : WellFormed (.directory (SortedEntries.insert name node entries)) := by
  cases h with
  | directory sorted names below =>
      refine .directory (SortedEntries.sorted_insert name node sorted) ?_ ?_
      · intro entry member
        rcases SortedEntries.mem_insert member with rfl | member
        · exact named
        · exact names entry member
      · intro entry member
        rcases SortedEntries.mem_insert member with rfl | member
        · exact formed
        · exact below entry member

theorem erase (name : String) {entries : Entries} (h : WellFormed (.directory entries)) :
    WellFormed (.directory (SortedEntries.erase name entries)) := by
  cases h with
  | directory sorted names below =>
      exact .directory (SortedEntries.sorted_erase name sorted)
        (fun entry member => names entry (List.mem_filter.1 member).1)
        (fun entry member => below entry (List.mem_filter.1 member).1)

theorem changeAt {change : Entries → Entries}
    (keeps : ∀ entries, WellFormed (.directory entries) → WellFormed (.directory (change entries)))
    (place : Place) {entries : Entries} (h : WellFormed (.directory entries)) :
    WellFormed (.directory (Node.changeAt change place entries)) := by
  induction place generalizing entries with
  | nil => exact keeps entries h
  | cons name rest ih =>
      simp only [Node.changeAt]
      split
      · next inner found =>
          have member := SortedEntries.mem_of_lookup found
          cases h with
          | directory sorted names below =>
              exact insert (.directory sorted names below) (names (name, .directory inner) member)
                (ih (below _ member))
      · exact h

end WellFormed

end Node

end ScriptBindings
