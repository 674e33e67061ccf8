import ScriptBindings.Declaration.Basic
import ScriptBindings.TypeExpr.Parser

/-! Function signatures read from the text of a statement. The entries of
both lists are separated by commas outside all brackets, and a blank entry
is none. The first thing that is wrong with a signature is reported. -/
namespace ScriptBindings

open Text ScriptBindings.Bracket

namespace Signature

/-- Why a statement that begins like a function is no signature. -/
inductive Fault where
  | missingName
  | missingParameters (name : String)
  | unclosedGenerics
  | unclosedParameters
  | textAfterParameters (text : String)
  | invalidGeneric (entry : String)
  | invalidParameter (name : String)
  | type (fault : TypeExpr.Fault)
  | unbalanced (flaw : Flaw)
  deriving DecidableEq, Repr

def Fault.message : Fault → String
  | .missingName => "missing function name"
  | .missingParameters name => "expected '(' after '" ++ name ++ "'"
  | .unclosedGenerics => "unclosed generic parameter list"
  | .unclosedParameters => "unclosed parameter list"
  | .textAfterParameters text => "unexpected '" ++ text ++ "' after parameter list"
  | .invalidGeneric entry => "invalid generic parameter '" ++ entry ++ "'"
  | .invalidParameter name => "invalid parameter name '" ++ name ++ "'"
  | .type fault => fault.message
  | .unbalanced flaw => flaw.message

/-- A walk inside a signature, whose offset is of no use to the reader. -/
def within {α : Type} (walked : Except Bracket.Fault α) : Except Fault α :=
  walked.mapError fun fault => .unbalanced fault.flaw

def readType (generics : List String) (text : List Char) : Except Fault TypeExpr :=
  (TypeExpr.parse generics text).mapError .type

/-- The trimmed entries of a list that are not blank. -/
def entries (text : List Char) : Except Fault (List (List Char)) := do
  return ((← within (splitTop ',' text)).map trim).filter (!·.isEmpty)

/-- The text after `export function` or `export declare function`. -/
def afterKeywords? (statement : List Char) : Option (List Char) := do
  let rest ← afterWord? "export" statement
  afterWord? "function" ((afterWord? "declare" rest).getD rest)

/-- The entry of a type parameter without `const` and without its default.
An `=` that begins an arrow begins no default. -/
def genericEntry (entry : List Char) : Except Fault (List Char) := do
  let entry := (afterWord? "const" entry).getD entry
  match ← within (breakTop (fun c rest => c == '=' && rest.head? != some '>') entry) with
  | some (declared, _) => return trimEnd declared
  | none => return entry

/-- The name of a type parameter and the text of its constraint. -/
def genericParts (entry : List Char) : Except Fault (String × Option (List Char)) := do
  let entry ← genericEntry entry
  let name := entry.takeWhile isNameChar
  let rest := trimStart (entry.dropWhile isNameChar)
  if !isName name then throw (.invalidGeneric (String.ofList entry))
  if rest.isEmpty then return (String.ofList name, none)
  match afterWord? "extends" rest with
  | some constraint => return (String.ofList name, some constraint)
  | none => throw (.invalidGeneric (String.ofList entry))

def readGeneric (names : List String) :
    String × Option (List Char) → Except Fault GenericParameter
  | (name, none) => return ⟨name, none⟩
  | (name, some text) => return ⟨name, some (← readType names text)⟩

/-- The type parameters of a `<...>` clause. A constraint may refer to every
name of the clause, also to later ones. -/
def readGenerics (text : List Char) : Except Fault (List GenericParameter) := do
  let declared ← (← entries text).mapM genericParts
  declared.mapM (readGeneric (declared.map (·.1)))

/-- The declared name of a parameter and the text of its type. -/
def parameterParts (entry : List Char) : Except Fault (List Char × Option (List Char)) := do
  let entry := (after? ['.', '.', '.'] entry).getD entry
  match ← within (breakTop (fun c _ => c == ':') entry) with
  | some (declared, type) => return (trim declared, some type)
  | none => return (entry, none)

/-- The parameter of an entry. A parameter named `this` only types the
receiver and is none, whatever its type. -/
def readParameter (generics : List String) (entry : List Char) :
    Except Fault (Option Parameter) := do
  let (declared, type) ← parameterParts entry
  let (name, optional) :=
    match before? ['?'] declared with
    | some name => (trimEnd name, true)
    | none => (declared, false)
  if !isName name then throw (.invalidParameter (String.ofList declared))
  if name == "this".toList then return none
  match type with
  | some text => return some ⟨String.ofList name, ← readType generics text, optional⟩
  | none => return some ⟨String.ofList name, .primitive .any, optional⟩

def readParameters (generics : List String) (text : List Char) :
    Except Fault (List Parameter) := do
  return (← (← entries text).mapM (readParameter generics)).filterMap id

/-- The type parameters, and the text after their clause if there is one. -/
def readGenericClause (text : List Char) : Except Fault (List GenericParameter × List Char) := do
  if text.head? == some '<' then
    match ← within (group? text) with
    | some (inside, rest) => return (← readGenerics inside, trimStart rest)
    | none => throw .unclosedGenerics
  else
    return ([], text)

/-- The result type, which is `any` when none is given. -/
def readReturnType (generics : List String) (text : List Char) : Except Fault TypeExpr :=
  match trim text with
  | [] => return .primitive .any
  | ':' :: type => readType generics type
  | tail => throw (.textAfterParameters (String.ofList tail))

/-- Read `name<generics>(parameters): result`. -/
def parse (text : List Char) : Except Fault Signature := do
  let name := text.takeWhile isNameChar
  if !isName name then throw .missingName
  let (generics, rest) ← readGenericClause (trimStart (text.dropWhile isNameChar))
  if rest.head? != some '(' then throw (.missingParameters (String.ofList name))
  match ← within (group? rest) with
  | none => throw .unclosedParameters
  | some (inside, tail) =>
      let names := generics.map (·.name)
      let parameters ← readParameters names inside
      return {
        name := String.ofList name
        generics
        parameters
        returnType := ← readReturnType names tail
        doc := none }

end Signature

end ScriptBindings
