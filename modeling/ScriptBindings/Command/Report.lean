import ScriptBindings.Binding.GenerationError
import ScriptBindings.Declaration.Diagnostic
import ScriptBindings.Storage.Basic

/-! What a command reports: its two texts, and why it failed if it did. A
cause is followed by the causes that lie behind it. -/
namespace ScriptBindings

inductive CommandError where
  | settingsMissing (path : String)
  | settingsUnreadable (path : String) (fault : StorageFault)
  | settingsInvalid (path : String)
  | moduleUnreadable (path : String) (fault : StorageFault)
  | declarationErrors (count : Nat)
  /-- Declaration errors for which nothing was written. -/
  | refused (count : Nat)
  | generation (error : GenerationError)
  | storage (fault : StorageFault)
  | alreadyExists (path : String)
  deriving DecidableEq, Repr

/-- The messages of an error and of what lies behind it, outermost first. -/
def CommandError.causes : CommandError → List String
  | .settingsMissing path =>
      ["Configuration file not found: " ++ path ++
        "\nRun \x60tsinterop init\x60 to create one."]
  | .settingsUnreadable path fault =>
      ["Failed to load " ++ path,
        "Configuration error: Failed to read config file: " ++ fault.message]
  | .settingsInvalid path =>
      ["Failed to load " ++ path, "Configuration error: Failed to parse config:"]
  | .moduleUnreadable path fault => ["Failed to read " ++ path, fault.message]
  | .declarationErrors count => [toString count ++ " declaration error(s)"]
  | .refused count => [toString count ++ " declaration error(s); nothing was written"]
  | .generation error => [error.message]
  | .storage fault => [fault.message]
  | .alreadyExists path => [path ++ " already exists. Use --force to overwrite it."]

structure Report where
  output : String := ""
  warnings : String := ""
  failure : Option CommandError := none
  deriving DecidableEq, Repr

/-- One line for each diagnostic, marked by whether it cost the module. -/
def diagnosticLines (diagnostics : List Diagnostic) : String :=
  String.join (diagnostics.map fun d =>
    (if d.isFatal then "  ✗ " else "  ! ") ++ d.message ++ "\n")

end ScriptBindings
