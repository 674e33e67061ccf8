import ScriptBindings.Binding.Sources
import ScriptBindings.Storage.Basic
import ScriptBindings.Text.Blank

/-! The output directory. Each generated source is written to its own file,
unless the file has that content already. Files left by an earlier
generation are removed, which are those whose name ends as the sources' do
and whose first lines bear the marker; no other file is touched. -/
namespace ScriptBindings

/-- What happened to the files of the output directory. -/
structure WriteSummary where
  written : Nat := 0
  unchanged : Nat := 0
  removed : Nat := 0
  deriving DecidableEq, Repr

/-- Whether a text bears the marker in its first three lines. -/
def isMarked (text : String) : Bool :=
  ((Text.lines text.toList).take 3).any generatedMarker.toList.isPrefixOf

/-- Whether a file could stem from an earlier generation, judged by its
name. -/
def OutputSettings.isStaleName (output : OutputSettings) (expected : List String)
    (name : String) : Bool :=
  output.fileExtension.toList.reverse.isPrefixOf name.toList.reverse && !expected.contains name

section Write

variable {m : Type → Type} [Monad m] [Storage m]

/-- The content of a path, if it leads to a text. -/
def readText? (path : String) : m (Option String) :=
  return (← Storage.readText path).toOption

/-- Write a source unless its file is as it should be; whether it was
written. -/
def writeFragment (directory : String) (output : OutputSettings) (fragment : Fragment) :
    ExceptT StorageFault m Bool := do
  let path := Path.join directory (output.fileName fragment.name)
  if (← readText? (m := m) path) == some fragment.content then return false
  ExceptT.mk (Storage.writeText path fragment.content)
  return true

/-- Remove a file that bears the marker; whether it was removed. -/
def removeMarked (path : String) : ExceptT StorageFault m Bool := do
  if !(← readText? (m := m) path).any isMarked then return false
  ExceptT.mk (Storage.removeFile path)
  return true

/-- Remove what earlier generations left in the directory. -/
def removeStale (directory : String) (output : OutputSettings) (expected : List String) :
    ExceptT StorageFault m Nat := do
  let entries ← ExceptT.mk (Storage.entries (m := m) directory)
  let stale := entries.filter fun (name, kind) =>
    kind == .file && output.isStaleName expected name
  let removed ← stale.mapM fun (name, _) => removeMarked (Path.join directory name)
  return removed.count true

/-- Bring the directory up to date with the sources. -/
def GeneratedSources.write (sources : GeneratedSources) (directory : String)
    (output : OutputSettings) : ExceptT StorageFault m WriteSummary := do
  ExceptT.mk (Storage.makeDirectories directory)
  let written ← sources.fragments.mapM (writeFragment directory output)
  let expected := sources.fragments.map fun fragment => output.fileName fragment.name
  let removed ← removeStale directory output expected
  return { written := written.count true, unchanged := written.count false, removed }

end Write

end ScriptBindings
