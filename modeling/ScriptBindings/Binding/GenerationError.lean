import ScriptBindings.Name.Pattern

/-! Why nothing is generated. All causes but the last concern the settings
alone and are found before any module is looked at. -/
namespace ScriptBindings

inductive GenerationError where
  | pattern (kind : NameKind) (text : String) (fault : NamePattern.Fault)
  | noFlavour
  | actionMissing (text : String)
  | invalidPreloadAll (name : String)
  | duplicateSymbol (symbol first second : String)
  deriving DecidableEq, Repr

namespace GenerationError

/-- Whether the settings are at fault. -/
def isConfig : GenerationError → Bool
  | .duplicateSymbol .. => false
  | _ => true

def cause : GenerationError → String
  | .pattern kind text fault => fault.message kind text
  | .noFlavour => "no invoke action is enabled"
  | .actionMissing text =>
      "method name pattern '" ++ text ++
        "' must contain \x7baction\x7d when several invoke actions are enabled"
  | .invalidPreloadAll name =>
      "preload_all_modules_name '" ++ name ++ "' is not a valid identifier"
  | .duplicateSymbol symbol first second =>
      "Duplicate symbol '" ++ symbol ++ "': declared by '" ++ first ++ "' and '" ++ second ++ "'"

def message (e : GenerationError) : String :=
  if e.isConfig then "Generation config error: " ++ e.cause else e.cause

end GenerationError

end ScriptBindings
