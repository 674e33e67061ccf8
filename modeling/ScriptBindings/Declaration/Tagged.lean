import ScriptBindings.Declaration.Basic
import ScriptBindings.Declaration.Diagnostic
import ScriptBindings.TypeExpr.Tagged

/-! Declaration modules and diagnostics as data. The fields of every record
are in increasing order of their names; a function without a doc comment has
no `doc` field. -/
namespace ScriptBindings

def GenericParameter.toData (g : GenericParameter) : Data :=
  .record
    [("constraint", (g.constraint.map TypeExpr.toData).getD .null), ("name", .text g.name)]

def Parameter.toData (p : Parameter) : Data :=
  .record [("name", .text p.name), ("optional", .flag p.optional), ("ty", p.type.toData)]

def Signature.fields (f : Signature) : List (String × Data) :=
  (match f.doc with
    | some doc => [("doc", .text doc)]
    | none => []) ++
    [("generics", .list (f.generics.map GenericParameter.toData)), ("name", .text f.name),
      ("parameters", .list (f.parameters.map Parameter.toData)),
      ("return_type", f.returnType.toData)]

def Signature.toData (f : Signature) : Data :=
  .record f.fields

/-- A module as a record, given how its functions are written. -/
def ScriptModule.toDataWith (function : Signature → Data) (m : ScriptModule) : Data :=
  .record
    [("functions", .list (m.functions.map function)), ("name", .text m.name),
      ("path", .text m.path), ("url", .text m.url)]

def ScriptModule.toData (m : ScriptModule) : Data :=
  m.toDataWith Signature.toData

def Diagnostic.Kind.toData (kind : Diagnostic.Kind) : Data :=
  .record [("detail", .text kind.detail), ("kind", .text kind.label)]

def Diagnostic.fields (d : Diagnostic) : List (String × Data) :=
  [("kind", d.kind.toData), ("line", .ofNat d.line), ("offset", .ofNat d.offset),
    ("path", .text d.path)]

def Diagnostic.toData (d : Diagnostic) : Data :=
  .record d.fields

end ScriptBindings
