import ScriptBindings.Text.Measure

/-! What is reported about a declaration module. A diagnostic is placed by
the byte offset in the module's source, and its line follows from the
offset. -/
namespace ScriptBindings

/-- Malformed signatures are confined to one declaration. Unbalanced
brackets leave no statement to go on with and cost the whole module. -/
inductive Diagnostic.Kind where
  | malformedSignature (detail : String)
  | unbalancedBrackets (detail : String)
  | duplicateSymbol (symbol : String)
  deriving DecidableEq, Repr

structure Diagnostic where
  path : String
  line : Nat
  offset : Nat
  kind : Diagnostic.Kind
  deriving DecidableEq, Repr

namespace Diagnostic

/-- A diagnostic at an offset, or at the end of the source if that comes
first. -/
def place (path : String) (source : List Char) (offset : Nat) (kind : Kind) : Diagnostic :=
  let offset := min offset (Text.byteCount source)
  { path, line := Text.lineAt offset source, offset, kind }

/-- Whether the signature is malformed, recoverably or not. -/
def Kind.isMalformed : Kind → Bool
  | .malformedSignature _ | .unbalancedBrackets _ => true
  | .duplicateSymbol _ => false

def Kind.detail : Kind → String
  | .malformedSignature detail | .unbalancedBrackets detail | .duplicateSymbol detail => detail

def Kind.label : Kind → String
  | .malformedSignature _ => "malformed_signature"
  | .unbalancedBrackets _ => "unbalanced_brackets"
  | .duplicateSymbol _ => "duplicate_symbol"

def Kind.message : Kind → String
  | .malformedSignature detail => "malformed signature: " ++ detail
  | .unbalancedBrackets detail => "malformed signature: unbalanced brackets, " ++ detail
  | .duplicateSymbol symbol => "duplicate symbol '" ++ symbol ++ "'"

/-- Whether the module was dropped. -/
def isFatal (d : Diagnostic) : Bool :=
  match d.kind with
  | .unbalancedBrackets _ => true
  | _ => false

def message (d : Diagnostic) : String :=
  d.path ++ ":" ++ toString d.line ++ ": " ++ d.kind.message ++
    " (offset " ++ toString d.offset ++ ")"

end Diagnostic

end ScriptBindings
