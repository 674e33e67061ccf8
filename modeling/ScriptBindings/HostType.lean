import ScriptBindings.Settings.Basic
import ScriptBindings.TypeExpr.Basic

/-! The host type of each type expression. A type parameter is always
itself; any other type is first looked up in the override table under its
canonical text and then mapped by its structure. What has no host type gets
the fallback. -/
namespace ScriptBindings

/-- The host type without values. -/
def voidType : String :=
  "void"

/-- The interface that marks a type parameter declared as `keyof`. -/
def keyOfInterface : String :=
  "IKeyOf"

/-- Host types that are part of the language; none may be a constraint. -/
def builtInTypes : List String :=
  ["bool", "byte", "sbyte", "char", "decimal", "double", "float", "int", "uint", "nint",
    "nuint", "long", "ulong", "short", "ushort", "object", "string", "dynamic", "void"]

def endsWith (ending text : String) : Bool :=
  ending.toList.isSuffixOf text.toList

/-- The nullable form of a host type. A type that ends with `?` has it
already. -/
def nullable (host : String) : String :=
  if endsWith "?" host then host else host ++ "?"

/-- The mapping to host types that the settings give. -/
structure TypeMap where
  overrides : OverrideTable
  fallback : String

namespace TypeMap

def ofSettings (s : Settings) : TypeMap :=
  ⟨s.overrides, s.fallbackType⟩

def override? (m : TypeMap) (t : TypeExpr) : Option TypeOverride :=
  m.overrides.find? t.canonical

/-- The overriding host type, or the one the structure gives. -/
def orOverride (m : TypeMap) (t : TypeExpr) (structural : String) : String :=
  match m.override? t with
  | some entry => entry.host
  | none => structural

def primitiveHost (m : TypeMap) : Primitive → String
  | .string => "string"
  | .number => "double"
  | .boolean => "bool"
  | .bigint => "long"
  | .void | .undefined | .never => voidType
  | .null => "object?"
  | .any | .unknown | .object => "object"
  | .symbol => m.fallback

/-- A task for a result of the given host type. -/
def taskOf (host : String) : String :=
  if host == voidType then "ValueTask" else "ValueTask<" ++ host ++ ">"

/-- The host type of a union, given those of its members that carry a value.
Only one such member has a host type; there is no nullable `void`. -/
def unionHost (m : TypeMap) : List String → String
  | [host] => if host == voidType then host else nullable host
  | _ => m.fallback

def keyOfHost (m : TypeMap) : TypeExpr → String
  | .genericRef name => keyOfInterface ++ "<" ++ name ++ ">"
  | _ => m.fallback

mutual

def host (m : TypeMap) : TypeExpr → String
  | .primitive p => m.orOverride (.primitive p) (m.primitiveHost p)
  | .arrayOf element => m.orOverride (.arrayOf element) (m.host element ++ "[]")
  | .unionOf members => m.orOverride (.unionOf members) (m.unionHost (m.memberHosts members))
  | .promiseOf result => m.orOverride (.promiseOf result) (taskOf (m.host result))
  | .keyOf target => m.orOverride (.keyOf target) (m.keyOfHost target)
  | .reference text => m.orOverride (.reference text) m.fallback
  | .genericRef name => name

/-- The host types of the members that are neither `null` nor
`undefined`. -/
def memberHosts (m : TypeMap) : List TypeExpr → List String
  | [] => []
  | t :: rest => if t.isNullish then m.memberHosts rest else m.host t :: m.memberHosts rest

end

/-- Host types that may stand in a constraint. -/
def isConstraint (m : TypeMap) (host : String) : Bool :=
  host != "" && host != m.fallback && !endsWith "?" host && !endsWith "[]" host &&
    !builtInTypes.contains host

/-- The constraint that a type comes to, if it comes to one. Only type
parameters, `keyof` of one, and overrides do. -/
def constraint? (m : TypeMap) : TypeExpr → Option String
  | .genericRef name => some name
  | .keyOf (.genericRef name) =>
      let host := m.host (.keyOf (.genericRef name))
      if m.isConstraint host then some host else none
  | t => do
      let host := (← m.override? t).host
      if m.isConstraint host then some host else none

/-- The type parameters of the override, or those the structure gives. -/
def orGenerics (m : TypeMap) (t : TypeExpr) (structural : List OverrideGeneric) :
    List OverrideGeneric :=
  match m.override? t with
  | some entry => entry.generics
  | none => structural

mutual

/-- The type parameters of the overrides that the host type of a type comes
from, in the order in which they are met. -/
def introduced (m : TypeMap) : TypeExpr → List OverrideGeneric
  | .genericRef _ => []
  | .arrayOf element => m.orGenerics (.arrayOf element) (m.introduced element)
  | .promiseOf result => m.orGenerics (.promiseOf result) (m.introduced result)
  | .unionOf members => m.orGenerics (.unionOf members)
      (match m.introducedByMembers members with
        | [generics] => generics
        | _ => [])
  | .primitive p => m.orGenerics (.primitive p) []
  | .keyOf target => m.orGenerics (.keyOf target) []
  | .reference text => m.orGenerics (.reference text) []

def introducedByMembers (m : TypeMap) : List TypeExpr → List (List OverrideGeneric)
  | [] => []
  | t :: rest =>
      if t.isNullish then m.introducedByMembers rest
      else m.introduced t :: m.introducedByMembers rest

end

end TypeMap

end ScriptBindings
