import ScriptBindings.Command.Grammar

/-! The commands: `generate` writes the sources, `check` reports what would
be generated, and `init` writes settings to start from. -/
namespace ScriptBindings

def defaultSettingsPath : String :=
  "tsinterop.toml"

structure GenerateOptions where
  settingsPath : String := defaultSettingsPath
  /-- The directory that is written to, instead of the one in the settings. -/
  output : Option String := none
  /-- Whether declarations that cannot be read prevent the generation. -/
  strict : Bool := false
  deriving DecidableEq, Repr

structure CheckOptions where
  settingsPath : String := defaultSettingsPath
  json : Bool := false
  deriving DecidableEq, Repr

structure InitOptions where
  path : String := defaultSettingsPath
  /-- Whether an existing file is replaced. -/
  force : Bool := false
  deriving DecidableEq, Repr

inductive Command where
  | generate (options : GenerateOptions)
  | check (options : CheckOptions)
  | init (options : InitOptions)
  deriving DecidableEq, Repr

namespace Command

def helpOption : OptionSpec :=
  ⟨"help", some 'h', .asks .helpAsked⟩

/-- Accepted at every level. The commands have nothing to add when asked for
more. -/
def verboseOption : OptionSpec :=
  ⟨"verbose", some 'v', .flag⟩

def settingsOption : OptionSpec :=
  ⟨"config", some 'c', .valued⟩

def topGrammar : Grammar where
  options := [helpOption, verboseOption, ⟨"version", some 'V', .asks .versionAsked⟩]
  commands := ["generate", "check", "init", "help"]

def generateGrammar : Grammar where
  options :=
    [helpOption, verboseOption, settingsOption, ⟨"output", some 'o', .valued⟩,
      ⟨"strict", none, .flag⟩]

def checkGrammar : Grammar where
  options := [helpOption, verboseOption, settingsOption, ⟨"json", none, .flag⟩]

def initGrammar : Grammar where
  options := [helpOption, verboseOption, ⟨"force", none, .flag⟩]
  wordLimit := 1

def settingsPath (a : Arguments) : String :=
  (a.value? settingsOption.name).getD defaultSettingsPath

/-- The command of a name, with the arguments behind it. -/
def ofLevel (name : String) (arguments : List String) : Except UsageIssue Command := do
  match name with
  | "generate" =>
      let (a, _) ← generateGrammar.read {} arguments
      return .generate ⟨settingsPath a, a.value? "output", a.has "strict"⟩
  | "check" =>
      let (a, _) ← checkGrammar.read {} arguments
      return .check ⟨settingsPath a, a.has "json"⟩
  | "init" =>
      let (a, _) ← initGrammar.read {} arguments
      return .init ⟨a.words.head?.getD defaultSettingsPath, a.has "force"⟩
  | _ =>
      match arguments with
      | [] => throw .helpAsked
      | [topic] =>
          throw (if topGrammar.commands.contains topic then .helpAsked else .unknownCommand)
      | _ => throw .unknownCommand

/-- The command that a command line asks for. -/
def ofArguments (arguments : List String) : Except UsageIssue Command := do
  match ← topGrammar.read {} arguments with
  | (_, some (name, rest)) => ofLevel name rest
  | (a, none) => throw (if a.options.isEmpty then .nothingAsked else .missingCommand)

end Command

end ScriptBindings
