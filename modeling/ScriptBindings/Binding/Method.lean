import ScriptBindings.HostType

/-! Methods of the generated sources: one for each function and flavour of
invocation. The interface declares a method and the runtime class implements
it under the same declaration. -/
namespace ScriptBindings

/-- How a bound function is invoked: at once, at once where the runtime can,
or always later. -/
inductive Flavour where
  | sync
  | trySync
  | async
  deriving DecidableEq, Repr

namespace Flavour

def all : List Flavour :=
  [.sync, .trySync, .async]

/-- The member of the runtime class that carries out the invocation. -/
def helper : Flavour → String
  | .sync => "TSInvoke"
  | .trySync => "TSInvokeTrySync"
  | .async => "TSInvokeAsync"

/-- The configured value of the placeholder `action`. -/
def actionName (names : ActionNames) : Flavour → String
  | .sync => names.sync
  | .trySync => names.trySync
  | .async => names.async

def isEnabled (s : InvocationSettings) : Flavour → Bool
  | .sync => s.syncEnabled
  | .trySync => s.trySyncEnabled
  | .async => s.asyncEnabled

def manner : Flavour → String
  | .sync => "synchronously; the module must be preloaded"
  | .trySync => "synchronously when the runtime supports it, otherwise asynchronously"
  | .async => "asynchronously"

/-- Whether methods take a cancellation token, and return a task. -/
def isCancellable : Flavour → Bool
  | .sync => false
  | _ => true

end Flavour

structure HostParameter where
  hostType : String
  name : String
  hasDefault : Bool
  deriving DecidableEq, Repr

/-- A method with all types resolved. `result` is the host type of the
awaited result; `token` names the cancellation parameter, which comes
last. -/
structure Method where
  flavour : Flavour
  name : String
  result : String
  generics : List String
  constraints : List (String × String)
  parameters : List HostParameter
  token : String
  deriving DecidableEq, Repr

namespace Method

def isVoid (m : Method) : Bool :=
  m.result == voidType

def returnType (m : Method) : String :=
  if m.flavour.isCancellable then TypeMap.taskOf m.result else m.result

/-- The type argument of the helper, which has no form without a result. -/
def helperResult (m : Method) : String :=
  if m.isVoid then "IJSVoidResult" else m.result

def genericClause (m : Method) : String :=
  if m.generics.isEmpty then "" else "<" ++ ", ".intercalate m.generics ++ ">"

def whereClauses (m : Method) : String :=
  String.join (m.constraints.map fun (name, constraint) =>
    " where " ++ name ++ " : " ++ constraint)

def parameterText (p : HostParameter) : String :=
  p.hostType ++ " " ++ p.name ++ if p.hasDefault then " = default" else ""

def parameterTexts (m : Method) : List String :=
  m.parameters.map parameterText ++
    if m.flavour.isCancellable then ["CancellationToken " ++ m.token ++ " = default"] else []

/-- The declaration, without modifiers and without a body. -/
def declaration (m : Method) : String :=
  m.returnType ++ " " ++ m.name ++ m.genericClause ++
    "(" ++ ", ".intercalate m.parameterTexts ++ ")" ++ m.whereClauses

/-- Whether the implementation awaits: a task without a result is made of
one that has a placeholder result. -/
def awaits (m : Method) : Bool :=
  m.isVoid && m.flavour.isCancellable

/-- What the helper is called with: module, function, token and
parameters. -/
def arguments (m : Method) (url function : String) : List String :=
  ["\"" ++ url ++ "\"", "\"" ++ function ++ "\""] ++
    (if m.flavour.isCancellable then [m.token] else []) ++ m.parameters.map (·.name)

/-- The summary of a function that has no doc comment. -/
def describe (m : Method) (url function : String) : String :=
  "Invokes '" ++ function ++ "' of module '" ++ url ++ "' " ++ m.flavour.manner ++ "."

def indent : String :=
  "    "

/-- The member of the interface. -/
def interfaceMember (m : Method) (summary : String) : String :=
  indent ++ "/// <summary>\n" ++ indent ++ "/// " ++ summary ++ "\n" ++ indent ++
    "/// </summary>\n" ++ indent ++ m.declaration ++ ";\n"

/-- The member of the runtime class. -/
def implementation (m : Method) (url function : String) : String :=
  indent ++ "public " ++ (if m.awaits then "async " else "") ++ m.declaration ++ "\n" ++
    indent ++ "    => " ++ (if m.awaits then "await " else "") ++ m.flavour.helper ++
    "<" ++ m.helperResult ++ ">(" ++ ", ".intercalate (m.arguments url function) ++ ");\n"

end Method

end ScriptBindings
