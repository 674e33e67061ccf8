/-! The tree of values that a structured text denotes, whatever its
notation. A number is kept as written. A record keeps its fields in order,
and may hold a key twice if the text does. -/
namespace ScriptBindings

inductive Data where
  | null
  | flag (value : Bool)
  | number (written : String)
  | text (value : String)
  | list (items : List Data)
  | record (fields : List (String × Data))
  deriving Repr, Inhabited

namespace Data

def ofNat (n : Nat) : Data :=
  .number (toString n)

def texts (values : List String) : Data :=
  .list (values.map .text)

def ofOption (value : Option String) : Data :=
  match value with
  | some t => .text t
  | none => .null

def isNull : Data → Bool
  | .null => true
  | _ => false

def isRecord : Data → Bool
  | .record _ => true
  | _ => false

def text? : Data → Option String
  | .text value => some value
  | _ => none

def flag? : Data → Option Bool
  | .flag value => some value
  | _ => none

def list? : Data → Option (List Data)
  | .list items => some items
  | _ => none

/-- Every item read, if all can be. -/
def listOf? {α : Type} (read : Data → Option α) (d : Data) : Option (List α) :=
  d.list?.bind (·.mapM read)

/-- The value, or nothing for `null`. -/
def optional? {α : Type} (read : Data → Option α) : Data → Option (Option α)
  | .null => some none
  | d => (read d).map some

/-- The first field of that name. -/
def field? (name : String) : Data → Option Data
  | .record fields => fields.lookup name
  | _ => none

end Data

end ScriptBindings
