import ScriptBindings.Binding.Generator

/-! What is generated for the modules, and the symbols that this claims. The
plan itself cannot fail; whether it may be carried out depends on its claims
alone. Members of the runtime class, files and the parameters of one method
are three separate spaces of symbols. -/
namespace ScriptBindings

/-- A module with its names and its methods, each beside its function. -/
structure ModulePlan where
  module : ScriptModule
  fragmentName : String
  preload : String
  methods : List (Signature × Method)

/-- A use of symbols that must not repeat: a member and its owner, a file
and its owner, or the parameters of a method. -/
inductive Claim where
  | member (symbol owner : String)
  | fragment (symbol owner : String)
  | parameters (method : String) (names : List String) (owner : String)
  deriving DecidableEq, Repr

/-- The symbols claimed so far, with their first owners. -/
structure Ledger where
  members : List (String × String)
  fragments : List (String × String)
  deriving DecidableEq, Repr

/-- The first name that occurred before. -/
def firstRepeated? : List String → List String → Option String
  | _, [] => none
  | seen, name :: rest =>
      if seen.contains name then some name else firstRepeated? (name :: seen) rest

namespace Ledger

def empty : Ledger :=
  ⟨[], []⟩

/-- Enter a claim, or report that its symbol is taken. -/
def record (ledger : Ledger) : Claim → Except GenerationError Ledger
  | .member symbol owner =>
      match ledger.members.lookup symbol with
      | some first => .error (.duplicateSymbol symbol first owner)
      | none => .ok { ledger with members := (symbol, owner) :: ledger.members }
  | .fragment symbol owner =>
      match ledger.fragments.lookup symbol with
      | some first => .error (.duplicateSymbol symbol first owner)
      | none => .ok { ledger with fragments := (symbol, owner) :: ledger.fragments }
  | .parameters method names owner =>
      match firstRepeated? [] names with
      | some name => .error (.duplicateSymbol (method ++ "(" ++ name ++ ")") owner owner)
      | none => .ok ledger

end Ledger

namespace Generator

/-- The owner of the symbols that the runtime class always has. -/
def scaffoldOwner : String :=
  "runtime scaffold"

/-- The members that the scaffold declares. -/
def scaffoldMembers : List String :=
  ["jsRuntime", "cancellationTokenSource", "modules", "modulesLock", "GetOrLoadModule",
    "TSInvoke", "TSInvokeTrySync", "TSInvokeAsync", "Dispose", "DisposeAsync"]

def reservedMembers (g : Generator) : List String :=
  scaffoldMembers ++ [g.className, g.interfaceName, g.settings.preloadAllName]

def planModule (g : Generator) (m : ScriptModule) : ModulePlan where
  module := m
  fragmentName := g.fragmentName m
  preload := g.preloadName m
  methods := m.functions.flatMap fun f =>
    (g.flavoursFor f).map fun flavour => (f, g.method m f flavour)

def plan (g : Generator) (modules : List ScriptModule) : List ModulePlan :=
  modules.map g.planModule

end Generator

namespace ModulePlan

def claims (plan : ModulePlan) : List Claim :=
  [.fragment plan.fragmentName plan.module.path, .member plan.preload plan.module.path] ++
    plan.methods.flatMap fun (_, m) =>
      [.parameters m.name (m.parameters.map (·.name)) plan.module.path,
        .member m.name plan.module.path]

end ModulePlan

namespace Generator

/-- The claims of a plan, in the order in which they are made. -/
def claims (g : Generator) (plans : List ModulePlan) : List Claim :=
  g.reservedMembers.map (.member · scaffoldOwner) ++ plans.flatMap (·.claims)

/-- Refuse a plan by the first of its claims that repeats a symbol. -/
def checkClaims (g : Generator) (plans : List ModulePlan) : Except GenerationError Unit := do
  let _ ← (g.claims plans).foldlM Ledger.record .empty

end Generator

end ScriptBindings
