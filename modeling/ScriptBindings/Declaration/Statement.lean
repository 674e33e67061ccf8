import ScriptBindings.Declaration.Comment

/-! The top-level statements of a source. A statement ends at a `;` outside
all brackets, or behind a closing brace outside all brackets unless what
follows continues it. Statements begin at a character that is not blank. -/
namespace ScriptBindings.Declaration

open Text ScriptBindings.Bracket

/-- The extent of a statement in the blanked source: offsets of its first
character and of the character behind it. -/
structure Span where
  start : Nat
  stop : Nat
  deriving DecidableEq, Repr

/-- The statement being read: where it began, and where its block ended if
nothing but blanks followed the block. -/
structure Progress where
  start : Option Nat
  blockEnd : Option Nat
  deriving DecidableEq, Repr

/-- Characters that carry a statement on behind a block. -/
def continuesBlock (c : Char) : Bool :=
  c == ';' || c == '|' || c == '&' || c == '['

namespace Progress

def none : Progress :=
  ⟨.none, .none⟩

/-- The statement that ended with its block, now that `c` is known to
follow. -/
def endBlock (p : Progress) (c : Char) : Option Span × Progress :=
  match p.start, p.blockEnd with
  | some start, some stop =>
      if continuesBlock c then (.none, ⟨some start, .none⟩) else (some ⟨start, stop⟩, none)
  | start, _ => (.none, ⟨start, .none⟩)

/-- Take in the character `c` at `offset`, which is not blank; `before` and
`after` count the brackets open around it. -/
def take (p : Progress) (offset : Nat) (c : Char) (before after : Nat) : Option Span × Progress :=
  if before == 0 && c == ';' then
    (p.start.map fun start => ⟨start, offset⟩, none)
  else
    (.none,
      { start := some (p.start.getD offset)
        blockEnd := if c == '\x7d' && before == 1 && after == 0 then some (offset + 1) else .none })

end Progress

/-- The statements from the cursor on. -/
def spansFrom : Cursor → Progress → List Char → Except Fault (List Span)
  | k, p, [] => do
      k.finish
      return (p.start.map fun start => ⟨start, k.offset⟩).toList
  | k, p, c :: rest => do
      let next ← k.step c
      if k.inCode && !isBlank c then
        let (ended, continued) := p.endBlock c
        let (closed, progress) := continued.take k.offset c k.depth next.depth
        return ended.toList ++ closed.toList ++ (← spansFrom next progress rest)
      else
        spansFrom next p rest

def spans (cleaned : List Char) : Except Fault (List Span) :=
  spansFrom .start .none cleaned

/-- A statement: its offset in the source, its trimmed text without
comments, and the summary of the doc comment before it. -/
structure Statement where
  offset : Nat
  text : List Char
  doc : Option String
  deriving DecidableEq, Repr

/-- The summary of the last doc comment that lies between two offsets. -/
def docBetween (docs : List DocComment) (start stop : Nat) : Option String :=
  ((docs.filter fun doc => start ≤ doc.stop && doc.stop ≤ stop).getLast?).bind (·.summary)

/-- Each span as a statement, given the end of the statement before it. -/
def statementsFrom (source : Blanked) : Nat → List Span → List Statement
  | _, [] => []
  | previousEnd, span :: rest =>
      { offset := span.start
        text := trim (slice span.start span.stop source.text)
        doc := docBetween source.docs previousEnd span.start } ::
        statementsFrom source span.stop rest

/-- The statements of a source, or the first fault of its brackets. -/
def statements (source : List Char) : Except Fault (List Statement) := do
  let blanked := blankComments source
  return statementsFrom blanked 0 (← spans blanked.text)

end ScriptBindings.Declaration
