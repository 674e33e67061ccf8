import ScriptBindings.Text.Case

/-! The casing of a value that is put into a generated name. Only the first
character changes, and it may become several. -/
namespace ScriptBindings

inductive Casing where
  | verbatim
  | pascal
  | camel
  deriving DecidableEq, Repr

namespace Casing

def label : Casing → String
  | .verbatim => "verbatim"
  | .pascal => "pascal_case"
  | .camel => "camel_case"

def all : List Casing :=
  [.verbatim, .pascal, .camel]

def ofLabel? (text : String) : Option Casing :=
  all.find? (·.label == text)

def applyChars : Casing → List Char → List Char
  | .pascal, c :: rest => Text.upper c ++ rest
  | .camel, c :: rest => Text.lower c ++ rest
  | _, value => value

def apply (casing : Casing) (value : String) : String :=
  String.ofList (casing.applyChars value.toList)

/-- What a casing makes of a value. Nothing behind its first character
changes. -/
inductive Gives : Casing → List Char → List Char → Prop where
  | empty (casing : Casing) : Gives casing [] []
  | verbatim (value : List Char) : Gives .verbatim value value
  | pascal (c : Char) (rest : List Char) : Gives .pascal (c :: rest) (Text.upper c ++ rest)
  | camel (c : Char) (rest : List Char) : Gives .camel (c :: rest) (Text.lower c ++ rest)

@[simp] theorem ofLabel?_label (casing : Casing) : ofLabel? casing.label = some casing := by
  cases casing <;> decide

end Casing

end ScriptBindings
