/-! Offsets into a text. Offsets and sizes count the bytes of the UTF-8
form, so that a position can be reported without regard to how the text is
stored. A position inside a character belongs to that character. -/
namespace ScriptBindings.Text

def byteCount : List Char → Nat
  | [] => 0
  | c :: rest => c.utf8Size + byteCount rest

/-- The characters that begin at or after `start` and before `stop`, where
the first character of the text begins at `offset`. -/
def sliceFrom (offset start stop : Nat) : List Char → List Char
  | [] => []
  | c :: rest =>
      if stop ≤ offset then []
      else if start ≤ offset then c :: sliceFrom (offset + c.utf8Size) start stop rest
      else sliceFrom (offset + c.utf8Size) start stop rest

def slice (start stop : Nat) (text : List Char) : List Char :=
  sliceFrom 0 start stop text

/-- The newlines that begin before `stop`. -/
def newlinesBefore (stop offset : Nat) : List Char → Nat
  | [] => 0
  | c :: rest =>
      let later := newlinesBefore stop (offset + c.utf8Size) rest
      if c == '\n' && offset < stop then later + 1 else later

/-- The line, counted from one, that holds the byte at `offset`. -/
def lineAt (offset : Nat) (text : List Char) : Nat :=
  newlinesBefore offset 0 text + 1

@[simp] theorem byteCount_nil : byteCount [] = 0 := rfl

@[simp] theorem byteCount_cons (c : Char) (rest : List Char) :
    byteCount (c :: rest) = c.utf8Size + byteCount rest := rfl

@[simp] theorem byteCount_append (first second : List Char) :
    byteCount (first ++ second) = byteCount first + byteCount second := by
  induction first with
  | nil => simp
  | cons c rest ih => simp [ih, Nat.add_assoc]

end ScriptBindings.Text
