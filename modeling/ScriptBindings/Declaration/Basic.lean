import ScriptBindings.TypeExpr.Basic

/-! What a declaration module exports: its function signatures, in the order
in which they are declared. -/
namespace ScriptBindings

/-- A parameter as declared; `optional` records a trailing `?`. -/
structure Parameter where
  name : String
  type : TypeExpr
  optional : Bool
  deriving DecidableEq, Repr

/-- A type parameter and what it extends. -/
structure GenericParameter where
  name : String
  constraint : Option TypeExpr
  deriving DecidableEq, Repr

structure Signature where
  name : String
  generics : List GenericParameter
  parameters : List Parameter
  returnType : TypeExpr
  /-- Summary of the doc comment before the declaration. -/
  doc : Option String
  deriving DecidableEq, Repr

namespace Signature

/-- Whether a call only promises its result. -/
def isAsync (f : Signature) : Bool :=
  f.returnType.isPromise

/-- The type of the result once it has arrived. -/
def resultType (f : Signature) : TypeExpr :=
  f.returnType.awaited

def genericNames (f : Signature) : List String :=
  f.generics.map (·.name)

end Signature

/-- A declaration module: the path it was read from, the identifier and the
URL to import it by that the path gives, and its functions. -/
structure ScriptModule where
  path : String
  name : String
  url : String
  functions : List Signature
  deriving DecidableEq, Repr

/-- The first function of that name. -/
def ScriptModule.function? (m : ScriptModule) (name : String) : Option Signature :=
  m.functions.find? (·.name == name)

end ScriptBindings
