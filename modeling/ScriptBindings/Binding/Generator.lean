import ScriptBindings.Binding.GenerationError
import ScriptBindings.Binding.Method
import ScriptBindings.Declaration.Basic
import ScriptBindings.Text.Letter

/-! The generator that valid settings give, and the method it makes of a
function. Names follow the compiled patterns; the type parameters of
overrides come before those of the function. -/
namespace ScriptBindings

/-- The compiled pattern of each kind of name. -/
structure CompiledPatterns where
  interface : NamePattern
  runtimeClass : NamePattern
  module : NamePattern
  preload : NamePattern
  method : NamePattern
  parameter : NamePattern
  deriving DecidableEq, Repr

def NamePatterns.compileKind (patterns : NamePatterns) (kind : NameKind) :
    Except GenerationError NamePattern :=
  (NamePattern.compile kind (patterns.spec kind)).mapError
    (.pattern kind (patterns.spec kind).pattern)

/-- Compile all patterns; the first that is refused is reported. -/
def NamePatterns.compile (patterns : NamePatterns) : Except GenerationError CompiledPatterns := do
  return {
    interface := ← patterns.compileKind .interface
    runtimeClass := ← patterns.compileKind .runtimeClass
    module := ← patterns.compileKind .module
    preload := ← patterns.compileKind .preload
    method := ← patterns.compileKind .method
    parameter := ← patterns.compileKind .parameter }

/-- Identifiers of the host language, in any script. -/
def isHostIdentifier : List Char → Bool
  | [] => false
  | c :: rest =>
      (Text.isLetter c || c == '_') && rest.all fun d => Text.isLetterOrNumber d || d == '_'

/-- Words of the host language that are identifiers only behind an `@`. -/
def hostKeywords : List String :=
  ["abstract", "as", "base", "bool", "break", "byte", "case", "catch", "char", "checked",
    "class", "const", "continue", "decimal", "default", "delegate", "do", "double", "else",
    "enum", "event", "explicit", "extern", "false", "finally", "fixed", "float", "for",
    "foreach", "goto", "if", "implicit", "in", "int", "interface", "internal", "is", "lock",
    "long", "namespace", "new", "null", "object", "operator", "out", "override", "params",
    "private", "protected", "public", "readonly", "ref", "return", "sbyte", "sealed", "short",
    "sizeof", "stackalloc", "static", "string", "struct", "switch", "this", "throw", "true",
    "try", "typeof", "uint", "ulong", "unchecked", "unsafe", "ushort", "using", "virtual",
    "void", "volatile", "while"]

def escapeKeyword (name : String) : String :=
  if hostKeywords.contains name then "@" ++ name else name

/-- Settings that have been found valid, with what they compile to. -/
structure Generator where
  settings : Settings
  names : CompiledPatterns
  /-- The enabled flavours, of which there is at least one. -/
  flavours : List Flavour

namespace Generator

/-- Refuse settings that no generated source could follow. -/
def ofSettings (s : Settings) : Except GenerationError Generator := do
  let names ← s.namePatterns.compile
  let flavours := Flavour.all.filter (·.isEnabled s.invocation)
  if flavours.isEmpty then throw .noFlavour
  if flavours.length > 1 && !names.method.usesAction then
    throw (.actionMissing s.namePatterns.method.pattern)
  if !isHostIdentifier s.preloadAllName.toList then throw (.invalidPreloadAll s.preloadAllName)
  return ⟨s, names, flavours⟩

/-- What the names of the interface and of the runtime class are made of. -/
def runtimeBaseName : String :=
  "TSRuntime"

def interfaceName (g : Generator) : String :=
  g.names.interface.render (.ofName runtimeBaseName)

def className (g : Generator) : String :=
  g.names.runtimeClass.render (.ofName runtimeBaseName)

def moduleContext (m : ScriptModule) : NameContext :=
  ⟨m.name, m.name, "", ""⟩

def fragmentName (g : Generator) (m : ScriptModule) : String :=
  g.names.module.render (moduleContext m)

def preloadName (g : Generator) (m : ScriptModule) : String :=
  g.names.preload.render (moduleContext m)

/-- The flavours that a function is bound with. -/
def flavoursFor (g : Generator) (f : Signature) : List Flavour :=
  if f.isAsync && g.settings.invocation.promiseOnlyAsync then [.async] else g.flavours

def methodName (g : Generator) (m : ScriptModule) (f : Signature) (flavour : Flavour) : String :=
  let action := flavour.actionName g.settings.invocation.actionNames
  let name := g.names.method.render ⟨f.name, m.name, f.name, action⟩
  if g.settings.invocation.promiseAppendAsync && f.isAsync && !endsWith "Async" name then
    name ++ "Async"
  else
    name

def parameterName (g : Generator) (p : Parameter) : String :=
  escapeKeyword (g.names.parameter.render (.ofName p.name))

def typeMap (g : Generator) : TypeMap :=
  .ofSettings g.settings

/-- A parameter may take a default if it and all later ones are optional. -/
def hostParameters (g : Generator) : List Parameter → List HostParameter
  | [] => []
  | p :: rest =>
      let host := g.typeMap.host p.type
      { hostType := if p.optional then nullable host else host
        name := g.parameterName p
        hasDefault := p.optional && rest.all (·.optional) } :: g.hostParameters rest

/-- Type parameters of a method and their constraints. -/
structure GenericClause where
  names : List String
  constraints : List (String × String)
  deriving DecidableEq, Repr

namespace GenericClause

/-- Add a type parameter of an override, unless its name is taken. -/
def addIntroduced (clause : GenericClause) (generic : OverrideGeneric) : GenericClause :=
  if clause.names.contains generic.name then clause
  else
    { names := clause.names ++ [generic.name]
      constraints := clause.constraints ++ generic.constraint.toList.map ((generic.name, ·)) }

/-- Add a type parameter of the function. A name that is taken may still get
the constraint, if it has none. -/
def addOwn (m : TypeMap) (clause : GenericClause) (generic : GenericParameter) : GenericClause :=
  { names :=
      if clause.names.contains generic.name then clause.names else clause.names ++ [generic.name]
    constraints :=
      match generic.constraint.bind m.constraint? with
      | some constraint =>
          if clause.constraints.any (·.1 == generic.name) then clause.constraints
          else clause.constraints ++ [(generic.name, constraint)]
      | none => clause.constraints }

end GenericClause

/-- The types of a function in the order in which their overrides introduce
type parameters: parameters, result, constraints. -/
def typesInOrder (f : Signature) : List TypeExpr :=
  f.parameters.map (·.type) ++ [f.resultType] ++ f.generics.filterMap (·.constraint)

def genericClause (g : Generator) (f : Signature) : GenericClause :=
  let introduced := ((typesInOrder f).flatMap g.typeMap.introduced).foldl .addIntroduced ⟨[], []⟩
  f.generics.foldl (.addOwn g.typeMap) introduced

/-- The name with as few underscores as keep it apart from the names in use,
but at most `fuel`. -/
def extendName (used : List String) : Nat → String → String
  | 0, name => name
  | fuel + 1, name => if used.contains name then extendName used fuel (name ++ "_") else name

/-- The name of the cancellation parameter. As many underscores as there are
parameters always suffice. -/
def tokenName (parameters : List HostParameter) : String :=
  extendName (parameters.map (·.name)) parameters.length "cancellationToken"

def method (g : Generator) (m : ScriptModule) (f : Signature) (flavour : Flavour) : Method :=
  let parameters := g.hostParameters f.parameters
  let clause := g.genericClause f
  { flavour
    name := g.methodName m f flavour
    result := g.typeMap.host f.resultType
    generics := clause.names
    constraints := clause.constraints
    parameters
    token := tokenName parameters }

end Generator

end ScriptBindings
