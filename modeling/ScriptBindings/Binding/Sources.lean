import ScriptBindings.Binding.Plan
import ScriptBindings.Binding.Scaffold
import ScriptBindings.Text.Xml

/-! The generated sources: the runtime scaffold, the interface with every
bound function, and for each module the part of the runtime class that
implements its members. Either all are generated or none. -/
namespace ScriptBindings

/-- One generated source, named after what it declares. -/
structure Fragment where
  name : String
  content : String
  deriving DecidableEq, Repr

structure GeneratedSources where
  scaffold : Fragment
  interface : Fragment
  /-- One for each module, in order. -/
  modules : List Fragment
  deriving DecidableEq, Repr

def GeneratedSources.fragments (s : GeneratedSources) : List Fragment :=
  s.scaffold :: s.interface :: s.modules

/-- How the second line of every generated source begins. -/
def generatedMarker : String :=
  "// Generated by tsinterop."

namespace Generator

open Method (indent)

/-- The first lines of a source: marker, pragmas, and every using once. -/
def header (g : Generator) (usings : List String) : String :=
  "// <auto-generated/>\n" ++ generatedMarker ++ " Changes to this file will be lost.\n" ++
    "#pragma warning disable\n" ++ "#nullable enable annotations\n\n" ++
    String.join ((usings ++ g.settings.usings).eraseDups.map fun name => "using " ++ name ++ ";\n")

def namespaceLine (g : Generator) : String :=
  "\nnamespace " ++ g.settings.hostNamespace ++ ";\n\n"

/-- A doc comment of one line. -/
def summaryText (indentation summary : String) : String :=
  indentation ++ "/// <summary>\n" ++ indentation ++ "/// " ++ summary ++ "\n" ++
    indentation ++ "/// </summary>\n"

/-- What the method that loads every module does: it awaits their
preloads. -/
def preloadAllBody (plans : List ModulePlan) : String :=
  if plans.isEmpty then "Task.CompletedTask"
  else "Task.WhenAll(" ++ ", ".intercalate (plans.map (·.preload ++ "()")) ++ ")"

/-- The doc comment of a method: the function's own, or a description. -/
def methodSummary (url : String) (f : Signature) (m : Method) : String :=
  Text.escapeXml (f.doc.getD (m.describe url f.name))

/-- The members of the interface for one module. -/
def interfaceMembers (plan : ModulePlan) : String :=
  "\n" ++
    summaryText indent
      ("Loads module '" ++ Text.escapeXml plan.module.url ++ "' ahead of its first invocation.") ++
    indent ++ "Task " ++ plan.preload ++ "();\n" ++
    String.join (plan.methods.map fun (f, m) =>
      "\n" ++ m.interfaceMember (methodSummary plan.module.url f m))

def interfaceText (g : Generator) (plans : List ModulePlan) : String :=
  g.header ["System.Threading", "System.Threading.Tasks"] ++ g.namespaceLine ++
    summaryText ""
      ("Typed access to the JavaScript modules bound by <see cref=\"" ++ g.className ++ "\"/>.") ++
    "public interface " ++ g.interfaceName ++ "\n\x7b\n" ++
    summaryText indent "Loads every bound module." ++
    indent ++ "Task " ++ g.settings.preloadAllName ++ "() => " ++ preloadAllBody plans ++ ";\n" ++
    String.join (plans.map interfaceMembers) ++ "\x7d\n"

/-- The part of the runtime class for one module. -/
def moduleText (g : Generator) (plan : ModulePlan) : String :=
  g.header
      ["System.Threading", "System.Threading.Tasks", "Microsoft.JSInterop",
        "Microsoft.JSInterop.Infrastructure"] ++
    g.namespaceLine ++
    summaryText ""
      ("Bindings for '" ++ Text.escapeXml plan.module.path ++ "', loaded from '" ++
        Text.escapeXml plan.module.url ++ "'.") ++
    "public sealed partial class " ++ g.className ++ "\n\x7b\n" ++
    indent ++ "public Task " ++ plan.preload ++ "() => GetOrLoadModule(\"" ++ plan.module.url ++
    "\");\n" ++
    String.join (plan.methods.map fun (f, m) =>
      "\n" ++ m.implementation plan.module.url f.name) ++ "\x7d\n"

def scaffoldText (g : Generator) : String :=
  let extension := g.settings.serviceExtension
  Scaffold.render (g.header (Scaffold.usings extension)) g.settings.hostNamespace g.className
    g.interfaceName extension

/-- The sources of a plan that may be carried out. -/
def emit (g : Generator) (plans : List ModulePlan) : GeneratedSources where
  scaffold := ⟨g.className, g.scaffoldText⟩
  interface := ⟨g.interfaceName, g.interfaceText plans⟩
  modules := plans.map fun plan => ⟨plan.fragmentName, g.moduleText plan⟩

def generate (g : Generator) (modules : List ScriptModule) :
    Except GenerationError GeneratedSources := do
  let plans := g.plan modules
  g.checkClaims plans
  return g.emit plans

end Generator

/-- Generate the sources for the modules. -/
def generate (s : Settings) (modules : List ScriptModule) :
    Except GenerationError GeneratedSources := do
  (← Generator.ofSettings s).generate modules

end ScriptBindings
