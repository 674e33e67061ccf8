import ScriptBindings.Command.Run

/-! The command line on a disk. The commands see the disk through the same
operations as any other storage; only this module touches it. -/
namespace ScriptBindings.Disk

open System (FilePath)

def fault : IO.Error → StorageFault
  | .noFileOrDirectory .. => .notFound
  | .alreadyExists .. => .alreadyExists
  | .inappropriateType _ code _ => if code == 21 then .isDirectory else .notDirectory
  | error@(.invalidArgument _ code _) =>
      if code == 36 then .nameTooLong else .other error.toString
  | error => .other error.toString

def attempt {α : Type} (action : IO α) : IO (Except StorageFault α) := do
  match ← action.toBaseIO with
  | .ok value => return .ok value
  | .error error => return .error (fault error)

def entryKind? : IO.FS.FileType → Option EntryKind
  | .dir => some .directory
  | .file => some .file
  | _ => none

def kind? (path : FilePath) : IO (Option EntryKind) := do
  match ← path.metadata.toBaseIO with
  | .ok found => return entryKind? found.type
  | .error _ => return none

def readText (path : FilePath) : IO (Except StorageFault String) := do
  match ← attempt (IO.FS.readBinFile path) with
  | .error error => return .error error
  | .ok bytes =>
      match String.fromUTF8? bytes with
      | some text => return .ok text
      | none => return .error .notText

/-- The files and directories in a directory by increasing name, links left
out. -/
def entries (path : FilePath) : IO (List (String × EntryKind)) := do
  let names := (← path.readDir).toList.map (·.fileName)
  let sorted := names.mergeSort fun a b => decide (a ≤ b)
  let kinds ← sorted.mapM fun (name : String) => do
    return (name, entryKind? (← (path / name).symlinkMetadata).type)
  return kinds.filterMap fun (name, kind) => kind.map ((name, ·))

/-- All that lies below a directory; nothing, if it cannot be opened. -/
partial def listing (path : FilePath) : IO Listing := do
  match ← (entries path).toBaseIO with
  | .error _ => return .directory []
  | .ok found =>
      let below ← found.mapM fun (name, kind) => do
        match kind with
        | .file => return (name, Listing.file)
        | .directory => return (name, ← listing (path / name))
      return .directory below

instance : Storage IO where
  kind? path := kind? path
  readText path := readText path
  writeText path text := attempt (IO.FS.writeFile path text)
  makeDirectories path :=
    if path == "" then return .ok () else attempt (IO.FS.createDirAll path)
  entries path := attempt (entries path)
  listing path := attempt (listing path)
  removeFile path := attempt (IO.FS.removeFile path)

end ScriptBindings.Disk

namespace ScriptBindings.CommandLine

def usageText : String :=
  "Usage: tsinterop [--verbose] <COMMAND>\n\nCommands:\n" ++
    "  generate [--config <CONFIG>] [--output <OUTPUT>] [--strict]\n" ++
    "  check [--config <CONFIG>] [--json]\n" ++
    "  init [PATH] [--force]\n" ++
    "  help [COMMAND]\n"

/-- Show why no command is run, and give the exit code. -/
def explain : UsageIssue → IO UInt32
  | .helpAsked => do
      IO.print usageText
      return 0
  | .versionAsked => do
      IO.println "tsinterop"
      return 0
  | _ => do
      IO.eprint usageText
      return 2

/-- An error with what lies behind it. -/
def errorText : List String → String
  | [] => ""
  | [message] => "Error: " ++ message ++ "\n"
  | message :: behind =>
      "Error: " ++ message ++ "\n\nCaused by:\n" ++
        String.join (behind.map fun cause => "    " ++ cause ++ "\n")

def run (arguments : List String) : IO UInt32 := do
  match Command.ofArguments arguments with
  | .error issue => explain issue
  | .ok command =>
      let report : Report ← command.run
      IO.print report.output
      IO.eprint report.warnings
      match report.failure with
      | none => return 0
      | some error =>
          IO.eprint (errorText error.causes)
          return 1

end ScriptBindings.CommandLine

def main (arguments : List String) : IO UInt32 :=
  ScriptBindings.CommandLine.run arguments
