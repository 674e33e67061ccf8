/-! Command lines read by levels. Each level has options, some of which take
a value, words that stand by themselves, and words that name the next level.
The arguments are read from left to right and the first issue is the one
reported; a repeated option is noticed once its value is complete. -/
namespace ScriptBindings

/-- Why a command line does not lead to a command. -/
inductive UsageIssue where
  | helpAsked
  | versionAsked
  | nothingAsked
  | missingCommand
  | unknownCommand
  | unknownArgument
  | missingValue
  | unexpectedValue
  | repeatedOption
  deriving DecidableEq, Repr

namespace Command

inductive OptionRole where
  | flag
  | valued
  /-- The option asks for information, and nothing is run. -/
  | asks (issue : UsageIssue)
  deriving DecidableEq, Repr

/-- An option, given by its name behind two hyphens or its letter behind
one. -/
structure OptionSpec where
  name : String
  letter : Option Char := none
  role : OptionRole := .flag
  deriving DecidableEq, Repr

structure Grammar where
  options : List OptionSpec
  /-- The words that name the next level. -/
  commands : List String := []
  /-- How many words may stand by themselves. -/
  wordLimit : Nat := 0

/-- What the arguments read so far come to. -/
structure Arguments where
  /-- Options by name; the value of a flag is empty. -/
  options : List (String × String) := []
  words : List String := []
  /-- An option whose value, if it is there, has not been counted yet. -/
  pending : Option (String × Option String) := none
  deriving DecidableEq, Repr

namespace Arguments

def value? (a : Arguments) (name : String) : Option String :=
  a.options.lookup name

def has (a : Arguments) (name : String) : Bool :=
  (a.value? name).isSome

def addOption (a : Arguments) (name value : String) : Except UsageIssue Arguments :=
  if a.has name then .error .repeatedOption
  else .ok { a with options := (name, value) :: a.options }

/-- Count the pending option. -/
def settle (a : Arguments) : Except UsageIssue Arguments :=
  match a.pending with
  | none => .ok a
  | some (_, none) => .error .missingValue
  | some (name, some value) => { a with pending := none }.addOption name value

/-- An option with what is attached to it. -/
def useOption (a : Arguments) (spec : OptionSpec) (attached : Option String) :
    Except UsageIssue Arguments := do
  match spec.role, attached with
  | .valued, none => return { ← a.settle with pending := some (spec.name, none) }
  | .valued, some value => (← a.settle).addOption spec.name value
  | .flag, none => (← a.settle).addOption spec.name ""
  | .asks issue, none =>
      let _ ← a.settle
      throw issue
  | .flag, some _ | .asks _, some _ => throw .unexpectedValue

end Arguments

/-- How an argument is written. -/
inductive Written where
  /-- Two hyphens, behind which every argument is a word. -/
  | divider
  | named (name : String) (attached : Option String)
  | letters (letters : List Char)
  | word
  deriving DecidableEq, Repr

def Written.of (argument : String) : Written :=
  match argument.toList with
  | ['-', '-'] => .divider
  | '-' :: '-' :: text =>
      match text.dropWhile (· != '=') with
      | [] => .named (String.ofList text) none
      | _ :: value =>
          .named (String.ofList (text.takeWhile (· != '='))) (some (String.ofList value))
  | '-' :: c :: text => .letters (c :: text)
  | _ => .word

namespace Grammar

def named? (g : Grammar) (name : String) : Option OptionSpec :=
  g.options.find? (·.name == name)

def lettered? (g : Grammar) (letter : Char) : Option OptionSpec :=
  g.options.find? (·.letter == some letter)

/-- What follows the letter of an option that takes a value. -/
def attachedValue? : List Char → Option String
  | [] => none
  | '=' :: value => some (String.ofList value)
  | value => some (String.ofList value)

/-- Several options behind one hyphen. One that takes a value ends them. -/
def useLetters (g : Grammar) (a : Arguments) : List Char → Except UsageIssue Arguments
  | [] => .ok a
  | letter :: rest =>
      match g.lettered? letter with
      | none => .error .unknownArgument
      | some spec =>
          match spec.role with
          | .valued => a.useOption spec (attachedValue? rest)
          | _ =>
              match a.useOption spec none with
              | .ok used => g.useLetters used rest
              | .error issue => .error issue

/-- What is wrong with a word for which there is no room. -/
def strayWord (g : Grammar) (word : String) : UsageIssue :=
  if g.commands.isEmpty || g.commands.contains word then .unknownArgument else .unknownCommand

def addWord (g : Grammar) (a : Arguments) (word : String) : Except UsageIssue Arguments :=
  if a.words.length < g.wordLimit then do
    let settled ← a.settle
    return { settled with words := settled.words ++ [word] }
  else .error (g.strayWord word)

/-- What one argument adds, unless it is the divider or names the next
level. -/
def useArgument (g : Grammar) (a : Arguments) (argument : String) :
    Except UsageIssue Arguments :=
  match Written.of argument with
  | .divider => .ok a
  | .named name attached =>
      match g.named? name with
      | some spec => a.useOption spec attached
      | none => .error .unknownArgument
  | .letters letters => g.useLetters a letters
  | .word =>
      match a.pending with
      | some (name, none) => .ok { a with pending := some (name, some argument) }
      | _ => g.addWord a argument

/-- Whether an argument would be the value of the option before it. -/
def awaitsValue (a : Arguments) : Bool :=
  match a.pending with
  | some (_, none) => true
  | _ => false

/-- Read one level: its arguments, and the word that names the next level
with what follows it. -/
def read (g : Grammar) (a : Arguments) :
    List String → Except UsageIssue (Arguments × Option (String × List String))
  | [] => do return (← a.settle, none)
  | argument :: rest =>
      if !awaitsValue a && g.commands.contains argument then
        do return (← a.settle, some (argument, rest))
      else if Written.of argument == .divider then
        do return (← (← rest.foldlM g.addWord a).settle, none)
      else
        match g.useArgument a argument with
        | .ok used => g.read used rest
        | .error issue => .error issue

end Grammar

end Command

end ScriptBindings
