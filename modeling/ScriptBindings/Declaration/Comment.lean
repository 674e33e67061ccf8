import ScriptBindings.Bracket.Walk
import ScriptBindings.Text.Blank
import ScriptBindings.Text.Measure

/-! Comments of a source. Blanking puts a space for every byte of a comment
and keeps its newlines, so that offsets and lines stay those of the source.
Comment openers inside string literals open nothing; for this purpose a
literal ends at its quote or at the end of its line. -/
namespace ScriptBindings.Declaration

open Text ScriptBindings.Bracket

/-- A doc comment: the offset just behind it and its summary, if it has
one. -/
structure DocComment where
  stop : Nat
  summary : Option String
  deriving DecidableEq, Repr

/-- A source with its comments blanked, and its doc comments in order. -/
structure Blanked where
  text : List Char
  docs : List DocComment
  deriving DecidableEq, Repr

/-- What the next character belongs to. A block comment carries its body
read so far, in reverse. -/
inductive Region where
  | code
  | literal (quote : Char) (escaped : Bool)
  | lineComment
  | blockComment (body : List Char)
  deriving DecidableEq, Repr

/-- The lines of a doc comment up to the first tag, without their stars. -/
def summaryLines (body : List Char) : List (List Char) :=
  (((lines body).map fun line => trim ((trim line).dropWhile (· == '*'))).takeWhile
    (·.head? != some '@')).filter (!·.isEmpty)

def summary? (body : List Char) : Option String :=
  match summaryLines body with
  | [] => none
  | summary => some (String.ofList ([' '].intercalate summary))

/-- A block comment documents if its body begins with a star. -/
def docComment? (stop : Nat) (reversedBody : List Char) : Option DocComment :=
  match reversedBody.reverse with
  | '*' :: body => some ⟨stop, summary? body⟩
  | _ => none

/-- What stands in place of a character of a comment. -/
def blankOut (c : Char) : List Char :=
  if c == '\n' then [c] else List.replicate c.utf8Size ' '

namespace Blanked

def append (text : List Char) (rest : Blanked) : Blanked :=
  { rest with text := text ++ rest.text }

def document (doc : Option DocComment) (rest : Blanked) : Blanked :=
  { rest with docs := doc.toList ++ rest.docs }

end Blanked

/-- The region after a character of a literal. -/
def afterLiteral (quote : Char) (escaped : Bool) (c : Char) : Region :=
  if escaped then .literal quote false
  else if c == '\\' then .literal quote true
  else if c == quote || c == '\n' then .code
  else .literal quote false

/-- Blank the comments of what begins at `offset` in the given region. The
two characters that open a block comment are never part of what closes it. A
block comment that is not closed reaches to the end. -/
def blankFrom : Region → Nat → List Char → Blanked
  | .blockComment body, offset, [] => ⟨[], (docComment? offset body).toList⟩
  | _, _, [] => ⟨[], []⟩
  | .code, offset, '/' :: '/' :: rest =>
      (blankFrom .lineComment (offset + 2) rest).append [' ', ' ']
  | .code, offset, '/' :: '*' :: rest =>
      (blankFrom (.blockComment []) (offset + 2) rest).append [' ', ' ']
  | .code, offset, c :: rest =>
      (blankFrom (if isQuote c then .literal c false else .code) (offset + c.utf8Size) rest).append
        [c]
  | .literal quote escaped, offset, c :: rest =>
      (blankFrom (afterLiteral quote escaped c) (offset + c.utf8Size) rest).append [c]
  | .lineComment, offset, c :: rest =>
      (blankFrom (if c == '\n' then .code else .lineComment) (offset + c.utf8Size) rest).append
        (blankOut c)
  | .blockComment body, offset, '*' :: '/' :: rest =>
      ((blankFrom .code (offset + 2) rest).document (docComment? (offset + 2) body)).append
        [' ', ' ']
  | .blockComment body, offset, c :: rest =>
      (blankFrom (.blockComment (c :: body)) (offset + c.utf8Size) rest).append (blankOut c)

def blankComments (source : List Char) : Blanked :=
  blankFrom .code 0 source

end ScriptBindings.Declaration
