/-! Brackets and what can be wrong with them. The four kinds of brackets
nest in each other and close only their own kind. -/
namespace ScriptBindings

inductive Bracket where
  | round
  | square
  | angle
  | curly
  deriving DecidableEq, Repr

namespace Bracket

def opening? : Char → Option Bracket
  | '(' => some .round
  | '[' => some .square
  | '<' => some .angle
  | '\x7b' => some .curly
  | _ => none

def closing? : Char → Option Bracket
  | ')' => some .round
  | ']' => some .square
  | '>' => some .angle
  | '\x7d' => some .curly
  | _ => none

def opener : Bracket → Char
  | .round => '('
  | .square => '['
  | .angle => '<'
  | .curly => '\x7b'

/-- Why a text is not balanced. Offsets are those of the text walked. -/
inductive Flaw where
  | mismatched (opened : Bracket) (openedAt : Nat) (closer : Char)
  | unexpected (closer : Char)
  | neverClosed (opened : Bracket)
  | unterminatedLiteral
  deriving DecidableEq, Repr

/-- A flaw and the offset it is reported at: the offending closing bracket,
the innermost bracket left open, or the quote of the literal left open. -/
structure Fault where
  offset : Nat
  flaw : Flaw
  deriving DecidableEq, Repr

def Flaw.message : Flaw → String
  | .mismatched opened openedAt closer =>
      "'" ++ opened.opener.toString ++ "' opened at offset " ++ toString openedAt ++
        " is closed by '" ++ closer.toString ++ "'"
  | .unexpected closer => "unexpected '" ++ closer.toString ++ "'"
  | .neverClosed opened => "'" ++ opened.opener.toString ++ "' is never closed"
  | .unterminatedLiteral => "unterminated string literal"

end Bracket

end ScriptBindings
