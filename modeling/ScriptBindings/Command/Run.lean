import ScriptBindings.Command.Basic
import ScriptBindings.Command.Output
import ScriptBindings.Command.Report
import ScriptBindings.Declaration.Reader
import ScriptBindings.Declaration.Tagged
import ScriptBindings.Data.JsonPrinter
import ScriptBindings.Discovery
import ScriptBindings.Settings.Reader
import ScriptBindings.Settings.Writer

/-! The commands carried out on a storage. Nothing is written before all
that can be checked without writing has been checked. -/
namespace ScriptBindings

/-- The settings of a project, the directory that its paths start from, and
the modules that were read for it. -/
structure Project where
  settings : Settings
  base : String
  reading : Reading

/-- The format of settings, judged by the file that holds them. -/
def Settings.Format.ofPath (path : String) : Settings.Format :=
  if Path.extension? path == some "json" then .json else .toml

section Run

variable {m : Type → Type} [Monad m] [Storage m]

def loadSettings (path : String) : ExceptT CommandError m Settings := do
  if (← Storage.kind? (m := m) path).isNone then throw (.settingsMissing path)
  match ← Storage.readText (m := m) path with
  | .error fault => throw (.settingsUnreadable path fault)
  | .ok text =>
      match Settings.parse? (.ofPath path) text with
      | some settings => return settings
      | none => throw (.settingsInvalid path)

def loadProject (path : String) : ExceptT CommandError m Project := do
  let settings ← loadSettings path
  let base := Path.parent path
  let sources ← (collectSources (m := m) base settings.inputs).adapt fun
    | ⟨path, fault⟩ => .moduleUnreadable path fault
  return { settings, base, reading := readModules sources }

namespace GenerateOptions

def directory (options : GenerateOptions) (project : Project) : String :=
  options.output.getD (Path.join project.base project.settings.output.directory)

def summaryText (modules : List ScriptModule) (summary : WriteSummary) (directory : String) :
    String :=
  "\n  ✓ Bound " ++ toString (modules.flatMap (·.functions)).length ++ " functions from " ++
    toString modules.length ++ " modules\n  ✓ " ++ toString summary.written ++ " written, " ++
    toString summary.unchanged ++ " unchanged, " ++ toString summary.removed ++
    " removed\n  📁 Output: " ++ directory ++ "\n\n"

def run (options : GenerateOptions) : m Report := do
  match ← (loadProject options.settingsPath).run with
  | .error error => return { failure := some error }
  | .ok project =>
      let reading := project.reading
      let warnings := diagnosticLines reading.diagnostics
      if options.strict && reading.hasErrors then
        return { warnings, failure := some (.refused reading.diagnostics.length) }
      else
        match generate project.settings reading.modules with
        | .error error => return { warnings, failure := some (.generation error) }
        | .ok sources =>
            let directory := options.directory project
            match ← (sources.write directory project.settings.output).run with
            | .error fault => return { warnings, failure := some (.storage fault) }
            | .ok summary =>
                return { output := summaryText reading.modules summary directory, warnings }

end GenerateOptions

namespace CheckOptions

def moduleLine (module : ScriptModule) : String :=
  "  ✓ " ++ module.path ++ " (" ++ toString module.functions.length ++ " functions, " ++
    module.url ++ ")\n"

/-- All that was read, and what the generation would fail with. -/
def data (reading : Reading) (error : Option GenerationError) : Data :=
  .record
    [("errors", .list (reading.diagnostics.map Diagnostic.toData)),
      ("generation_error", .ofOption (error.map GenerationError.message)),
      ("modules", .list (reading.modules.map ScriptModule.toData))]

/-- A failing generation comes before the declarations that cannot be
read. -/
def failure? (reading : Reading) (error : Option GenerationError) : Option CommandError :=
  match error with
  | some error => some (.generation error)
  | none =>
      if reading.hasErrors then some (.declarationErrors reading.diagnostics.length) else none

def report (options : CheckOptions) (project : Project) : Report :=
  let reading := project.reading
  let error :=
    match generate project.settings reading.modules with
    | .ok _ => none
    | .error error => some error
  let failure := failure? reading error
  if options.json then { output := Json.pretty (data reading error) ++ "\n", failure }
  else
    { output := String.join (reading.modules.map moduleLine)
      warnings := diagnosticLines reading.diagnostics
      failure }

def run (options : CheckOptions) : m Report := do
  match ← (loadProject options.settingsPath).run with
  | .error error => return { failure := some error }
  | .ok project => return options.report project

end CheckOptions

namespace InitOptions

/-- The default settings as written to a path. -/
def content (path : String) : String :=
  match Settings.Format.ofPath path with
  | .json => Settings.toJson {}
  | .toml => Settings.toToml {}

def run (options : InitOptions) : m Report := do
  if (← Storage.kind? options.path).isSome && !options.force then
    return { failure := some (.alreadyExists options.path) }
  else
    match ← Storage.writeText options.path (content options.path) with
    | .ok () => return { output := "  ✓ Created " ++ options.path ++ "\n" }
    | .error fault => return { failure := some (.storage fault) }

end InitOptions

def Command.run : Command → m Report
  | .generate options => options.run
  | .check options => options.run
  | .init options => options.run

end Run

end ScriptBindings
