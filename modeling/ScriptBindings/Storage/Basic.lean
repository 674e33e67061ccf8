import ScriptBindings.Storage.Path

/-! Storage as the commands see it: files and directories reached by paths.
The commands are written against these operations only, so that they run the
same on a tree of values and on a disk. -/
namespace ScriptBindings

inductive StorageFault where
  | notFound
  | alreadyExists
  | notDirectory
  | isDirectory
  | nameTooLong
  | nulInName
  | notText
  /-- Any other fault of a disk, in its own words. -/
  | other (message : String)
  deriving DecidableEq, Repr

def StorageFault.message : StorageFault → String
  | .notFound => "No such file or directory (os error 2)"
  | .alreadyExists => "File exists (os error 17)"
  | .notDirectory => "Not a directory (os error 20)"
  | .isDirectory => "Is a directory (os error 21)"
  | .nameTooLong => "File name too long (os error 36)"
  | .nulInName => "file name contained an unexpected NUL byte"
  | .notText => "stream did not contain valid UTF-8"
  | .other message => message

inductive EntryKind where
  | file
  | directory
  deriving DecidableEq, Repr

/-- The most bytes that the name of an entry may have. -/
def nameLimit : Nat :=
  255

/-- The most bytes that a path may have. -/
def pathLimit : Nat :=
  4095

/-- The names below a directory, at every depth. The entries of each
directory are in increasing order of their names. A directory that cannot be
opened shows no entries. -/
inductive Listing where
  | file
  | directory (entries : List (String × Listing))
  deriving Repr, Inhabited

/-- The operations of a storage. Each either succeeds or reports a fault. -/
class Storage (m : Type → Type) where
  /-- What a path leads to, if it leads to anything. -/
  kind? : String → m (Option EntryKind)
  /-- The content of a file. -/
  readText : String → m (Except StorageFault String)
  /-- Replace a file, or make one in a directory that exists. -/
  writeText : String → String → m (Except StorageFault Unit)
  /-- Make a directory and those that it lies in. -/
  makeDirectories : String → m (Except StorageFault Unit)
  /-- The names in a directory. -/
  entries : String → m (Except StorageFault (List (String × EntryKind)))
  /-- All that lies below a directory. -/
  listing : String → m (Except StorageFault Listing)
  removeFile : String → m (Except StorageFault Unit)

end ScriptBindings
