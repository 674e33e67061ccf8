import ScriptBindings.Storage.Node

/-! A storage that is a value: the entries of one top directory. The top is
its own parent, and every path is followed from there: a walk comes to the
node that its place names. Whatever is done to the tree, the entries of each
directory stay in increasing order of their names. -/
namespace ScriptBindings

structure FileTree where
  entries : Node.Entries
  wellFormed : (Node.directory entries).WellFormed

namespace FileTree

open Node (Entries Place WellFormed)

def empty : FileTree :=
  ⟨[], .empty⟩

instance : Inhabited FileTree :=
  ⟨empty⟩

def nodeAt? (tree : FileTree) (place : Place) : Option Node :=
  (Node.directory tree.entries).get? place

/-- A way into a tree: the node that it has come to, and the directories
that it has passed, innermost first, each with the name that was followed in
it. -/
structure Walk where
  node : Node
  passed : List (String × Entries)

def start (tree : FileTree) : Walk :=
  ⟨.directory tree.entries, []⟩

namespace Walk

def place (walk : Walk) : Place :=
  (walk.passed.map (·.1)).reverse

/-- The directory around the one come to; nothing lies around the top. -/
def back (walk : Walk) : Walk :=
  match walk.passed with
  | [] => walk
  | (_, entries) :: outer => ⟨.directory entries, outer⟩

/-- One segment further. Every segment needs a directory to be followed
in. -/
def follow (walk : Walk) (segment : String) : Except StorageFault Walk :=
  match walk.node with
  | .file _ => .error .notDirectory
  | .directory entries =>
      if segment == "" || segment == "." then .ok walk
      else if segment == ".." then .ok walk.back
      else match entries.lookup segment with
        | some node => .ok ⟨node, (segment, entries) :: walk.passed⟩
        | none => .error (if nameLimit < segment.utf8ByteSize then .nameTooLong else .notFound)

/-- Each name on the way was found in the directory that it was followed
in. -/
inductive Within (tree : FileTree) : Walk → Prop where
  | start : Within tree tree.start
  | further {entries : Entries} {passed : List (String × Entries)} {name : String} {node : Node}
      (outer : Within tree ⟨.directory entries, passed⟩) (found : entries.lookup name = some node) :
      Within tree ⟨node, (name, entries) :: passed⟩

theorem within_follow {tree : FileTree} {walk onward : Walk} {segment : String}
    (h : walk.Within tree) (step : walk.follow segment = .ok onward) : onward.Within tree := by
  obtain ⟨node, passed⟩ := walk
  cases node with
  | file content => simp [follow] at step
  | directory entries =>
      simp only [follow] at step
      split at step
      · cases step
        exact h
      · split at step
        · cases step
          cases h with
          | start => exact .start
          | further outer found => exact outer
        · split at step
          · next found =>
              cases step
              exact .further h found
          · simp at step

theorem nodeAt?_place {tree : FileTree} {walk : Walk} (h : walk.Within tree) :
    tree.nodeAt? walk.place = some walk.node := by
  induction h with
  | start => rfl
  | further outer found ih =>
      simpa [place, nodeAt?, ← found] using Node.get?_concat ih _

end Walk

/-- The segments of a path that can be followed at all. The empty path leads
nowhere. -/
def followable (path : String) : Except StorageFault (List String) :=
  if path.toList.contains '\x00' then .error .nulInName
  else if path == "" then .error .notFound
  else if pathLimit < path.utf8ByteSize then .error .nameTooLong
  else .ok (Path.segments path)

/-- The node that a path leads to. -/
def resolve (tree : FileTree) (path : String) : Except StorageFault Node := do
  return (← (← followable path).foldlM Walk.follow tree.start).node

def kind? (tree : FileTree) (path : String) : Option EntryKind :=
  (tree.resolve path).toOption.map Node.kind

def readBytes (tree : FileTree) (path : String) : Except StorageFault ByteArray := do
  match ← tree.resolve path with
  | .file content => return content
  | .directory _ => throw .isDirectory

def readText (tree : FileTree) (path : String) : Except StorageFault String := do
  match String.fromUTF8? (← tree.readBytes path) with
  | some text => return text
  | none => throw .notText

def listEntries (tree : FileTree) (path : String) :
    Except StorageFault (List (String × EntryKind)) := do
  match ← tree.resolve path with
  | .directory entries => return entries.map fun (name, node) => (name, node.kind)
  | .file _ => throw .notDirectory

def listing (tree : FileTree) (path : String) : Except StorageFault Listing := do
  return (← tree.resolve path).listing path

/-- A name that an entry can have. -/
abbrev EntryName := { name : String // isEntryName name = true }

/-- The segments without the empty ones at their end. -/
def dropEmpty (segments : List String) : List String :=
  (segments.reverse.dropWhile (· == "")).reverse

/-- The last segment as the name of an entry; `otherwise`, if none could
have it. -/
def entryName (otherwise : StorageFault) (segments : List String) :
    Except StorageFault EntryName :=
  match segments.getLast? with
  | none => .error otherwise
  | some segment =>
      if h : isEntryName segment = true then .ok ⟨segment, h⟩
      else if nameLimit < segment.utf8ByteSize then .error .nameTooLong
      else .error otherwise

/-- The name of the file that a path could lead to. -/
def targetFile (path : String) : Except StorageFault EntryName :=
  entryName .isDirectory (Path.segments path)

/-- The name of the directory that a path could lead to. -/
def targetDirectory (path : String) : Except StorageFault EntryName :=
  entryName .alreadyExists (dropEmpty (Path.segments path))

/-- The directory in which the last name of a path is looked up. -/
def resolveParent (tree : FileTree) (path : String) : Except StorageFault (Place × Entries) := do
  let walk ← (dropEmpty (← followable path)).dropLast.foldlM Walk.follow tree.start
  match walk.node with
  | .directory entries => return (walk.place, entries)
  | .file _ => throw .notDirectory

/-- Put a node into the directory at a place. -/
def insertAt (tree : FileTree) (place : Place) (name : EntryName) (node : Node)
    (formed : node.WellFormed) : FileTree where
  entries := Node.changeAt (SortedEntries.insert name.1 node) place tree.entries
  wellFormed := tree.wellFormed.changeAt (fun _ h => h.insert name.2 formed) place

/-- Take an entry out of the directory at a place. -/
def eraseAt (tree : FileTree) (place : Place) (name : EntryName) : FileTree where
  entries := Node.changeAt (SortedEntries.erase name.1) place tree.entries
  wellFormed := tree.wellFormed.changeAt (fun _ h => h.erase name.1) place

def writeBytes (tree : FileTree) (path : String) (content : ByteArray) :
    Except StorageFault FileTree := do
  let (place, entries) ← tree.resolveParent path
  let name ← targetFile path
  match entries.lookup name.1 with
  | some (.directory _) => throw .isDirectory
  | _ => return tree.insertAt place name (.file content) (.file content)

def writeText (tree : FileTree) (path text : String) : Except StorageFault FileTree :=
  tree.writeBytes path text.toUTF8

def removeFile (tree : FileTree) (path : String) : Except StorageFault FileTree := do
  let (place, entries) ← tree.resolveParent path
  let name ← targetFile path
  match entries.lookup name.1 with
  | some (.file _) => return tree.eraseAt place name
  | some (.directory _) => throw .isDirectory
  | none => throw .notFound

/-- Make one directory in a directory that exists. -/
def makeDirectory (tree : FileTree) (path : String) : Except StorageFault FileTree := do
  let (place, entries) ← tree.resolveParent path
  let name ← targetDirectory path
  if (entries.lookup name.1).isSome then throw .alreadyExists
  else return tree.insertAt place name (.directory []) .empty

/-- A directory that is already there is as good as made. -/
def ensureDirectory (tree : FileTree) (path : String) : Except StorageFault FileTree :=
  match tree.makeDirectory path with
  | .ok made => .ok made
  | .error fault => if tree.kind? path == some .directory then .ok tree else .error fault

/-- Make a directory after those it lies in, of which at most `fuel` are
missing. What was made stays, even if the rest fails. -/
def ensureWithin : Nat → FileTree → String → Except StorageFault Unit × FileTree
  | fuel, tree, path =>
      if path == "" then (.ok (), tree)
      else
        match tree.ensureDirectory path, fuel with
        | .ok made, _ => (.ok (), made)
        | .error .notFound, fuel + 1 =>
            match ensureWithin fuel tree (Path.parent path) with
            | (.error fault, made) => (.error fault, made)
            | (.ok (), made) =>
                match made.ensureDirectory path with
                | .ok done => (.ok (), done)
                | .error fault => (.error fault, made)
        | .error fault, _ => (.error fault, tree)

/-- Each directory on the way is named by at least one character of the
path. -/
def makeDirectories (tree : FileTree) (path : String) : Except StorageFault Unit × FileTree :=
  ensureWithin path.length tree path

/-- Every path in the tree, in increasing order; those of directories end
with a slash. -/
def paths (tree : FileTree) : List String :=
  (Node.pathsOf "" tree.entries).mergeSort fun a b => decide (a ≤ b)

/-- Replace the tree if the change succeeds. -/
def commit (change : FileTree → Except StorageFault FileTree) :
    StateM FileTree (Except StorageFault Unit) := fun tree =>
  match change tree with
  | .ok changed => (.ok (), changed)
  | .error fault => (.error fault, tree)

instance : Storage (StateM FileTree) where
  kind? path := fun tree => (tree.kind? path, tree)
  readText path := fun tree => (tree.readText path, tree)
  writeText path text := commit (·.writeText path text)
  makeDirectories path := (·.makeDirectories path)
  entries path := fun tree => (tree.listEntries path, tree)
  listing path := fun tree => (tree.listing path, tree)
  removeFile path := commit (·.removeFile path)

end FileTree

end ScriptBindings
