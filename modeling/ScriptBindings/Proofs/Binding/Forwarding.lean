import ScriptBindings.Declaration.Reader
import ScriptBindings.Proofs.Binding.Methods
import ScriptBindings.Proofs.HostType.Arrays

/-! How the parameters of a method reach the function that it invokes. The
helpers of the runtime class take them as one list of variable length. The
host language takes a lone argument for that list itself, if it is an array
of references, and then passes on the elements in place of the array. -/
namespace ScriptBindings

open Outcomes TypeMap

/-- Whether a host type is one of references. Arrays are; of the others
`isClass` tells. -/
def isReference (isClass : String → Bool) (host : String) : Bool :=
  (elementOf? host).isSome || isClass (String.ofList (unmarked host))

def isReferenceArray (isClass : String → Bool) (host : String) : Bool :=
  (elementOf? host).any (isReference isClass)

/-- What is passed on of a parameter: its value, or each element of its
value. -/
inductive Argument where
  | whole (name : String)
  | spread (name : String)
  deriving DecidableEq, Repr

def Argument.name : Argument → String
  | .whole name | .spread name => name

namespace Method

/-- What a helper passes on of the parameters that it is called with. -/
def forwarded (isClass : String → Bool) (m : Method) : List Argument :=
  match m.parameters with
  | [p] => if isReferenceArray isClass p.hostType then [.spread p.name] else [.whole p.name]
  | parameters => parameters.map (.whole ·.name)

variable {isClass : String → Bool} {m : Method}

/-- The arguments that are passed on are the last ones of the call. The URL,
the name and the token before them are not. -/
theorem suffix_arguments (m : Method) (isClass : String → Bool) (url function : String) :
    (m.forwarded isClass).map (·.name) <:+ m.arguments url function := by
  have hNames : (m.forwarded isClass).map (·.name) = m.parameters.map (·.name) := by
    unfold forwarded
    split
    · next p hOne =>
        rw [hOne]
        split <;> rfl
    · rw [List.map_map]
      rfl
  rw [hNames]
  exact List.suffix_append _ _

/-- Each parameter is passed on as one argument, but for a lone array of
references. -/
theorem forwarded_eq_whole_iff :
    m.forwarded isClass = m.parameters.map (.whole ·.name) ↔
      ∀ p, m.parameters = [p] → isReferenceArray isClass p.hostType = false := by
  unfold forwarded
  split
  · next p hOne =>
      rw [hOne, List.map_singleton]
      cases hArray : isReferenceArray isClass p.hostType with
      | true => simp [hArray]
      | false => simp [hArray]
  · next hSeveral => exact iff_of_true rfl fun p hOne => absurd hOne (hSeveral p)

end Method

/-- A function with one parameter, whose type maps to an array of
references. -/
def Signature.TakesLoneArray (isClass : String → Bool) (m : TypeMap) (f : Signature) : Prop :=
  ∃ p element, f.parameters = [p] ∧ m.MapsToArray p.type element ∧ isReference isClass element = true

namespace Generator

variable {g : Generator} {isClass : String → Bool}

/-- An optional parameter is an array where a required one is. -/
theorem elementOf?_parameterHost (p : Parameter) :
    elementOf? (g.parameterHost p) = elementOf? (g.typeMap.host p.type) := by
  unfold parameterHost
  split
  · exact elementOf?_nullable _
  · rfl

/-- The mark of an optional parameter stands behind the brackets of an array
and does not hide them. -/
theorem isReferenceArray_parameterHost_iff (hEmpty : g.typeMap.overrides = .empty) (p : Parameter) :
    isReferenceArray isClass (g.parameterHost p) = true ↔
      ∃ element, g.typeMap.MapsToArray p.type element ∧ isReference isClass element = true := by
  rw [isReferenceArray, elementOf?_parameterHost, Option.any_eq_true]
  exact exists_congr fun element => and_congr_left' (mapsToArray_iff hEmpty).symm

/-- A method passes on each parameter whole unless the function takes a lone
array of references. Only the list of one parameter is special, and its type
decides. -/
theorem forwarded_method_iff (hEmpty : g.typeMap.overrides = .empty) (m : ScriptModule)
    (f : Signature) (flavour : Flavour) :
    (g.method m f flavour).forwarded isClass =
        (g.method m f flavour).parameters.map (.whole ·.name) ↔
      ¬f.TakesLoneArray isClass g.typeMap := by
  rw [Method.forwarded_eq_whole_iff]
  change (∀ host, g.hostParameters f.parameters = [host] → _) ↔ _
  constructor
  · rintro hWhole ⟨p, element, hOne, hArray⟩
    rw [hOne, hostParameters_singleton] at hWhole
    have hPlain := hWhole _ rfl
    dsimp only at hPlain
    rw [(isReferenceArray_parameterHost_iff hEmpty p).mpr ⟨element, hArray⟩] at hPlain
    cases hPlain
  · intro hNone host hOne
    obtain ⟨p, hParameter⟩ : ∃ p, f.parameters = [p] := by
      rw [← List.length_eq_one_iff, ← List.length_map g.parameterName, ← names_hostParameters, hOne]
      rfl
    rw [hParameter, hostParameters_singleton] at hOne
    obtain ⟨rfl, -⟩ := List.cons.inj hOne
    rw [Bool.eq_false_iff]
    intro hArray
    obtain ⟨element, hElement⟩ := (isReferenceArray_parameterHost_iff hEmpty p).mp hArray
    exact hNone ⟨p, element, hParameter, hElement⟩

end Generator

/-- Without overrides, the calls in all generated methods end with the
arguments that are passed on. Each parameter is passed on as one argument,
but for those of functions with one parameter that maps to an array of
references. -/
theorem forwarded_of_generate {s : Settings} {modules : List ScriptModule}
    {generated : GeneratedSources} (isClass : String → Bool) (hEmpty : s.overrides = .empty)
    (h : generate s modules = .ok generated) :
    ∃ g, Generator.ofSettings s = .ok g ∧ generated = g.emit (g.plan modules) ∧
      ∀ plan ∈ g.plan modules, ∀ bound ∈ plan.methods,
        (bound.2.forwarded isClass).map (·.name) <:+
          bound.2.arguments plan.module.url bound.1.name ∧
        (bound.2.forwarded isClass = bound.2.parameters.map (.whole ·.name) ↔
          ¬bound.1.TakesLoneArray isClass g.typeMap) := by
  obtain ⟨g, hg, -, rfl⟩ := (Generator.generate_eq_ok_iff _).mp h
  obtain ⟨hSettings, -⟩ := Generator.ofSettings_ok hg
  rw [← hSettings] at hEmpty
  have hWhole : ∀ plan ∈ g.plan modules, ∀ bound ∈ plan.methods,
      (bound.2.forwarded isClass = bound.2.parameters.map (.whole ·.name) ↔
        ¬bound.1.TakesLoneArray isClass g.typeMap) :=
    Generator.forall_bound_plan_iff.mpr fun m _ f _ flavour _ =>
      Generator.forwarded_method_iff hEmpty m f flavour
  exact ⟨g, hg, rfl, fun plan hPlan bound hBound =>
    ⟨bound.2.suffix_arguments isClass _ _, hWhole plan hPlan bound hBound⟩⟩

/-- An array beside another parameter, and a lone array of numbers. -/
theorem forwarded_of_generate_default :
    let isClass : String → Bool := (["string", "object"].contains ·)
    let modules := (readModules [("m.d.ts",
      "export function join(parts: string[], by: string): string;
       export function sum(terms: number[]): number;")]).modules
    Settings.overrides {} = .empty ∧ ∃ generated, generate {} modules = .ok generated ∧
      ∃ g, Generator.ofSettings {} = .ok g ∧ generated = g.emit (g.plan modules) ∧
        ∀ plan ∈ g.plan modules, ∀ bound ∈ plan.methods,
          (bound.2.forwarded isClass).map (·.name) <:+
            bound.2.arguments plan.module.url bound.1.name ∧
          (bound.2.forwarded isClass = bound.2.parameters.map (.whole ·.name) ↔
            ¬bound.1.TakesLoneArray isClass g.typeMap) := by
  intro isClass modules
  have hOk : (generate {} modules).map (fun _ => ()) = .ok () := by decide +kernel
  obtain ⟨generated, hGenerated, -⟩ := map_ok hOk
  exact ⟨rfl, generated, hGenerated, forwarded_of_generate isClass rfl hGenerated⟩

/-- The elements of a lone array of texts are passed on one by one. -/
theorem generated_call_spreads_array :
    let isClass : String → Bool := (["string", "object"].contains ·)
    let modules := (readModules
      [("m.d.ts", "export function join(parts: string[]): string;")]).modules
    ∃ generated g, generate {} modules = .ok generated ∧ Generator.ofSettings {} = .ok g ∧
      ∃ plan ∈ g.plan modules, ∃ bound ∈ plan.methods,
        bound.2.parameters.map (fun p => (p.hostType, p.name)) = [("string[]", "parts")] ∧
          bound.2.arguments "/m.js" "join" =
            ["\"/m.js\"", "\"join\"", "cancellationToken", "parts"] ∧
          bound.2.forwarded isClass = [.spread "parts"] := by
  intro isClass modules
  have hOk : (generate {} modules).map (fun _ => ()) = .ok () := by decide +kernel
  obtain ⟨generated, hGenerated, -⟩ := map_ok hOk
  obtain ⟨g, hg, plan, hPlan, bound, hBound, hCall⟩ :=
    Generator.exists_bound_of_any {} modules
      (fun bound =>
        bound.2.parameters.map (fun p => (p.hostType, p.name)) == [("string[]", "parts")] &&
          (bound.2.arguments "/m.js" "join" ==
              ["\"/m.js\"", "\"join\"", "cancellationToken", "parts"] &&
            bound.2.forwarded isClass == [.spread "parts"]))
      (by decide +kernel)
  rw [Bool.and_eq_true, Bool.and_eq_true, beq_iff_eq, beq_iff_eq, beq_iff_eq] at hCall
  exact ⟨generated, g, hGenerated, hg, plan, hPlan, bound, hBound, hCall⟩

end ScriptBindings
