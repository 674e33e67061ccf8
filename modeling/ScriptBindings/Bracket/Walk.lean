import ScriptBindings.Bracket.Basic

/-! The walk that knows, at every character of a text, which brackets are
open. String literals are passed over whole: nothing in them opens or closes
a bracket. A `>` directly after `=` is the end of an arrow and no bracket.
The walk stops at the first fault. -/
namespace ScriptBindings.Bracket

def isQuote (c : Char) : Bool :=
  c == '"' || c == '\'' || c == '\x60'

/-- A string literal that has been entered. An escaped character cannot
close it. -/
structure OpenLiteral where
  quote : Char
  openedAt : Nat
  escaped : Bool
  deriving DecidableEq, Repr

/-- Where a walk stands: the offset of the next character, the open brackets
from the innermost outwards, the last character outside literal bodies, and
the literal being passed over. -/
structure Cursor where
  offset : Nat
  openBrackets : List (Bracket × Nat)
  previous : Char
  literal : Option OpenLiteral
  deriving DecidableEq, Repr

namespace Cursor

def start : Cursor :=
  ⟨0, [], '\x00', none⟩

def depth (k : Cursor) : Nat :=
  k.openBrackets.length

/-- Outside every literal. -/
def inCode (k : Cursor) : Bool :=
  k.literal.isNone

/-- Outside every bracket and every literal. -/
def atTop (k : Cursor) : Bool :=
  k.inCode && k.openBrackets.isEmpty

def stepLiteral (k : Cursor) (l : OpenLiteral) (c : Char) : Cursor :=
  let offset := k.offset + c.utf8Size
  if l.escaped then { k with offset, literal := some { l with escaped := false } }
  else if c == '\\' then { k with offset, literal := some { l with escaped := true } }
  else if c == l.quote then { k with offset, literal := none, previous := c }
  else { k with offset }

/-- The open brackets after `c`, which is outside every literal. -/
def stepBrackets (k : Cursor) (c : Char) : Except Fault (List (Bracket × Nat)) :=
  match opening? c with
  | some kind => .ok ((kind, k.offset) :: k.openBrackets)
  | none =>
      match closing? c with
      | none => .ok k.openBrackets
      | some kind =>
          if kind == .angle && k.previous == '=' then .ok k.openBrackets
          else
            match k.openBrackets with
            | [] => .error ⟨k.offset, .unexpected c⟩
            | (opened, openedAt) :: outer =>
                if opened == kind then .ok outer
                else .error ⟨k.offset, .mismatched opened openedAt c⟩

/-- Pass over one character. -/
def step (k : Cursor) (c : Char) : Except Fault Cursor :=
  match k.literal with
  | some l => .ok (k.stepLiteral l c)
  | none =>
      if isQuote c then
        .ok { k with offset := k.offset + c.utf8Size, literal := some ⟨c, k.offset, false⟩ }
      else
        (k.stepBrackets c).map fun openBrackets =>
          { k with offset := k.offset + c.utf8Size, openBrackets, previous := c }

/-- The walk may end here only outside every literal and every bracket. -/
def finish (k : Cursor) : Except Fault Unit :=
  match k.literal with
  | some l => .error ⟨l.openedAt, .unterminatedLiteral⟩
  | none =>
      match k.openBrackets with
      | [] => .ok ()
      | (opened, openedAt) :: _ => .error ⟨openedAt, .neverClosed opened⟩

def run : Cursor → List Char → Except Fault Cursor
  | k, [] => .ok k
  | k, c :: rest => do (← k.step c).run rest

end Cursor

/-- Walk a whole text, from outside every bracket to outside every
bracket. -/
def check (text : List Char) : Except Fault Unit := do
  (← Cursor.start.run text).finish

end ScriptBindings.Bracket
