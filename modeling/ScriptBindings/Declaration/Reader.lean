import ScriptBindings.Declaration.Diagnostic
import ScriptBindings.Declaration.ModulePath
import ScriptBindings.Declaration.SignatureParser
import ScriptBindings.Declaration.Statement

/-! Declaration modules read from their sources. A malformed signature costs
one function and a repeated name the later one; only unbalanced brackets
cost the module. Modules do not depend on each other, except that a path is
kept once. -/
namespace ScriptBindings

/-- The module read from one source, unless it was dropped, and what was
wrong. -/
structure ModuleReading where
  module? : Option ScriptModule
  diagnostics : List Diagnostic
  deriving DecidableEq, Repr

/-- What a statement comes to: nothing to bind, a signature, or a fault. -/
inductive Finding where
  | other
  | function (signature : Signature)
  | malformed (fault : Signature.Fault)
  deriving DecidableEq, Repr

open Declaration

def Finding.ofStatement (statement : Statement) : Finding :=
  match Signature.afterKeywords? statement.text with
  | none => .other
  | some text =>
      match Signature.parse text with
      | .ok signature => .function { signature with doc := statement.doc }
      | .error fault => .malformed fault

/-- The functions of the statements and the diagnostics on them, given the
names already taken. The first declaration of a name is kept. -/
def readStatements (path : String) (source : List Char) :
    List String → List Statement → List Signature × List Diagnostic
  | _, [] => ([], [])
  | taken, statement :: rest =>
      match Finding.ofStatement statement with
      | .other => readStatements path source taken rest
      | .malformed fault =>
          let (functions, diagnostics) := readStatements path source taken rest
          (functions,
            .place path source statement.offset (.malformedSignature fault.message) :: diagnostics)
      | .function signature =>
          if taken.contains signature.name then
            let (functions, diagnostics) := readStatements path source taken rest
            (functions,
              .place path source statement.offset (.duplicateSymbol signature.name) :: diagnostics)
          else
            let (functions, diagnostics) :=
              readStatements path source (signature.name :: taken) rest
            (signature :: functions, diagnostics)

/-- Read one declaration module. -/
def readModule (path source : String) : ModuleReading :=
  let text := source.toList
  match statements text with
  | .error fault =>
      ⟨none, [.place path text fault.offset (.unbalancedBrackets fault.flaw.message)]⟩
  | .ok found =>
      let (functions, diagnostics) := readStatements path text [] found
      ⟨some (.ofPath path functions), diagnostics⟩

/-- Modules in the order of their sources, and every diagnostic in that
order. -/
structure Reading where
  modules : List ScriptModule
  diagnostics : List Diagnostic
  deriving DecidableEq, Repr

def Reading.hasErrors (r : Reading) : Bool :=
  !r.diagnostics.isEmpty

/-- Read the sources, given the paths already kept. A module whose path was
kept before is dropped and reported; a module dropped for its brackets takes
no path. -/
def readModulesFrom : List String → List (String × String) → Reading
  | _, [] => ⟨[], []⟩
  | kept, (path, source) :: rest =>
      let reading := readModule path source
      match reading.module? with
      | none =>
          let later := readModulesFrom kept rest
          { later with diagnostics := reading.diagnostics ++ later.diagnostics }
      | some found =>
          if kept.contains path then
            let later := readModulesFrom kept rest
            let repeated := Diagnostic.place path source.toList 0 (.duplicateSymbol path)
            { later with diagnostics := reading.diagnostics ++ repeated :: later.diagnostics }
          else
            let later := readModulesFrom (path :: kept) rest
            ⟨found :: later.modules, reading.diagnostics ++ later.diagnostics⟩

/-- Read `(path, source)` pairs. -/
def readModules (sources : List (String × String)) : Reading :=
  readModulesFrom [] sources

end ScriptBindings
