import Mathlib.Data.List.Nodup
import ScriptBindings.Declaration.Reader
import ScriptBindings.Proofs.Binding.Agreement

/-! The parameters of a method as its declaration lists them: those of the
function and behind them the cancellation token. No name occurs twice, and
what has a default comes last. -/
namespace ScriptBindings

open Outcomes

namespace Generator

/-! ### The name of the token -/

/-- The name with underscores behind it. -/
def extended (name : String) (count : Nat) : String :=
  name ++ String.ofList (List.replicate count '_')

/-- One underscore more is put first or last alike, so that the search may
be followed from its start. -/
theorem extended_succ (name : String) (count : Nat) :
    extended name (count + 1) = extended (name ++ "_") count := by
  rw [extended, extended, String.append_assoc, List.replicate_succ, String.ofList_cons]
  rfl

/-- Names extended by different counts differ, because they differ in
length. -/
theorem extended_injective (name : String) : Function.Injective (extended name) := by
  intro count other hSame
  have hLength := congrArg (·.toList.length) hSame
  simpa [extended] using hLength

/-- A name has the underscores that its shorter forms need, or as many as
there is fuel. -/
theorem extendName_eq (used : List String) (fuel : Nat) (name : String) :
    ∃ count ≤ fuel, extendName used fuel name = extended name count ∧
      (∀ fewer < count, extended name fewer ∈ used) ∧
      (extended name count ∈ used → count = fuel) := by
  induction fuel generalizing name with
  | zero => exact ⟨0, Nat.le_refl 0, by simp [extendName, extended], by simp, fun _ => rfl⟩
  | succ fuel ih =>
      have hBare : extended name 0 = name := by simp [extended]
      unfold extendName
      split
      · next hUsed =>
          obtain ⟨count, hCount, hName, hShorter, hLast⟩ := ih (name ++ "_")
          refine ⟨count + 1, Nat.succ_le_succ hCount, hName.trans (extended_succ name count).symm,
            fun fewer hFewer => ?_, fun hMem => ?_⟩
          · cases fewer with
            | zero => exact hBare.symm ▸ List.contains_iff_mem.mp hUsed
            | succ fewer => exact extended_succ name fewer ▸ hShorter fewer (by omega)
          · rw [hLast (extended_succ name count ▸ hMem)]
      · next hNew =>
          refine ⟨0, Nat.zero_le _, hBare.symm, by simp, fun hMem => ?_⟩
          exact absurd (List.contains_iff_mem.mpr (hBare ▸ hMem)) hNew

/-- The fuel suffices: that many names cannot use one more form than there
are names. -/
theorem extendName_shortest (used : List String) (name : String) :
    ∃ count ≤ used.length, extendName used used.length name = extended name count ∧
      extended name count ∉ used ∧ ∀ fewer < count, extended name fewer ∈ used := by
  obtain ⟨count, hCount, hName, hShorter, hLast⟩ := extendName_eq used used.length name
  refine ⟨count, hCount, hName, fun hMem => ?_, hShorter⟩
  have hForms : ((List.range (count + 1)).map (extended name)).Nodup :=
    List.nodup_range.map (extended_injective name)
  have hUsed : (List.range (count + 1)).map (extended name) ⊆ used := by
    intro form hForm
    obtain ⟨fewer, hFewer, rfl⟩ := List.mem_map.mp hForm
    rcases Nat.lt_succ_iff_lt_or_eq.mp (List.mem_range.mp hFewer) with hFewer | rfl
    · exact hShorter fewer hFewer
    · exact hMem
  have hLength := hForms.length_le_of_subset hUsed
  rw [List.length_map, List.length_range, hLast hMem] at hLength
  omega

end Generator

/-! ### The list of a declaration -/

namespace Method

/-- All parameters of the declaration, the cancellation token with them. -/
def allParameters (m : Method) : List HostParameter :=
  m.parameters ++ if m.flavour.isCancellable then [⟨"CancellationToken", m.token, true⟩] else []

/-- Each parameter is printed by itself, and the text of one does not depend
on the others. -/
theorem parameterTexts_eq (m : Method) :
    m.parameterTexts = m.allParameters.map parameterText := by
  rw [parameterTexts, allParameters, List.map_append]
  cases m.flavour.isCancellable with
  | true => rw [if_pos rfl, if_pos rfl, List.map_singleton]; rfl
  | false => rfl

/-- What a declaration lists is what the function declares, with names that
do not repeat and with defaults at the end only. The token has the shortest
name that is left for it. -/
structure ListsParameters (g : Generator) (f : Signature) (m : Method) : Prop where
  enclosed : ∀ declaration, m.IsDeclaration declaration →
    ∃ front list back, declaration = front ++ "(" ++ list ++ ")" ++ back ∧
      Text.Separated ", " m.parameterTexts list
  written : m.parameterTexts = m.allParameters.map parameterText
  declared : m.parameters.map (·.name) = f.parameters.map g.parameterName
  nodup : (m.allParameters.map (·.name)).Nodup
  trailing : m.allParameters.Pairwise fun p later => p.hasDefault = true → later.hasDefault = true
  defaults : ∀ (i : Nat) host, m.parameters[i]? = some host →
    (host.hasDefault = true ↔ ∀ p ∈ f.parameters.drop i, p.optional = true)
  token : ∃ count ≤ f.parameters.length,
    m.token = Generator.extended "cancellationToken" count ∧
      m.token ∉ f.parameters.map g.parameterName ∧
      ∀ fewer < count,
        Generator.extended "cancellationToken" fewer ∈ f.parameters.map g.parameterName

end Method

namespace Generator

variable {g : Generator} {f : Signature}

/-- A parameter has a default when it and all behind it are optional. -/
theorem hasDefault_hostParameters {parameters : List Parameter} {i : Nat} {host : HostParameter}
    (h : (g.hostParameters parameters)[i]? = some host) :
    host.hasDefault = true ↔ ∀ p ∈ parameters.drop i, p.optional = true := by
  induction parameters generalizing i with
  | nil => cases h
  | cons p rest ih =>
      cases i with
      | zero =>
          obtain rfl := Option.some_inj.mp h
          rw [List.drop_zero, List.forall_mem_cons, Bool.and_eq_true, List.all_eq_true]
      | succ i => exact ih h

/-- Behind a default there are only defaults: fewer parameters are left to
be optional. -/
theorem pairwise_hostParameters (parameters : List Parameter) :
    (g.hostParameters parameters).Pairwise fun p later =>
      p.hasDefault = true → later.hasDefault = true := by
  refine List.pairwise_iff_getElem.mpr fun i j hi hj hBefore hDefault => ?_
  have hOptional := (hasDefault_hostParameters (List.getElem?_eq_getElem hi)).mp hDefault
  refine (hasDefault_hostParameters (List.getElem?_eq_getElem hj)).mpr fun p hp => ?_
  exact hOptional p ((List.drop_sublist_drop_left parameters (Nat.le_of_lt hBefore)).subset hp)

/-- The search for a free name ends within as many steps as there are
parameters, and takes the first name that none of them has. -/
theorem tokenName_hostParameters (parameters : List Parameter) :
    ∃ count ≤ parameters.length,
      tokenName (g.hostParameters parameters) = extended "cancellationToken" count ∧
        tokenName (g.hostParameters parameters) ∉ parameters.map g.parameterName ∧
        ∀ fewer < count,
          extended "cancellationToken" fewer ∈ parameters.map g.parameterName := by
  have hLength : (g.hostParameters parameters).length = (parameters.map g.parameterName).length := by
    rw [← names_hostParameters, List.length_map]
  obtain ⟨count, hCount, hName, hNew, hShorter⟩ :=
    extendName_shortest (parameters.map g.parameterName) "cancellationToken"
  rw [tokenName, names_hostParameters, hLength, hName]
  exact ⟨count, List.length_map g.parameterName ▸ hCount, rfl, hNew, hShorter⟩

/-- What the claims of a plan have to grant is only that the names of the
parameters differ. All else follows from how a method is made. -/
theorem listsParameters_method (m : ScriptModule) (hNames : (g.parameterNames f).Nodup)
    (flavour : Flavour) : (g.method m f flavour).ListsParameters g f := by
  have hDeclared := g.names_hostParameters f.parameters
  obtain ⟨count, hCount, hName, hNew, hShorter⟩ := tokenName_hostParameters (g := g) f.parameters
  refine ⟨fun _ h => h.parameters, Method.parameterTexts_eq _, hDeclared, ?_, ?_, fun i host => hasDefault_hostParameters,
    count, hCount, hName, hNew, hShorter⟩
  · change ((g.hostParameters f.parameters ++ _).map _).Nodup
    rw [List.map_append, hDeclared]
    refine hNames.append ?_ ?_
    · split <;> simp
    · rw [List.disjoint_right]
      split
      · exact List.forall_mem_singleton.mpr hNew
      · exact List.forall_mem_nil _
  · refine List.pairwise_append.mpr ⟨pairwise_hostParameters _, ?_, fun p _ last hLast _ => ?_⟩
    · split <;> simp
    · split at hLast
      · rw [List.mem_singleton.mp hLast]
      · cases hLast

end Generator

/-- The parameter lists of all methods that are generated, where the sources
declare them. No name is listed twice, what has a default comes last, and
the token has the shortest free name. -/
theorem listsParameters_of_generate {s : Settings} {modules : List ScriptModule}
    {generated : GeneratedSources} (h : generate s modules = .ok generated) :
    ∃ g, Generator.ofSettings s = .ok g ∧ generated = g.emit (g.plan modules) ∧
      ∀ plan ∈ g.plan modules, ∀ bound ∈ plan.methods,
        generated.Declares plan.fragmentName bound.2 ∧ bound.2.ListsParameters g bound.1 := by
  obtain ⟨g, hg, hNames, rfl⟩ := (Generator.generate_eq_ok_iff _).mp h
  have hLists : ∀ plan ∈ g.plan modules, ∀ bound ∈ plan.methods,
      bound.2.ListsParameters g bound.1 :=
    Generator.forall_bound_plan_iff.mpr fun m hm f hf flavour _ =>
      Generator.listsParameters_method m (hNames.parameters m hm f hf) flavour
  exact ⟨g, hg, rfl, fun plan hPlan bound hBound =>
    ⟨Generator.declares_emit modules plan hPlan bound hBound, hLists plan hPlan bound hBound⟩⟩

/-- The token gives way to two parameters. Of the optional parameters only
the last one has a default. -/
theorem listsParameters_of_generate_token :
    let modules := (readModules [("m.d.ts", "export function wait(cancellationToken_?: number, " ++
      "cancellationToken: string, event?: boolean): void;")]).modules
    ∃ generated, generate {} modules = .ok generated ∧
      ∃ g, Generator.ofSettings {} = .ok g ∧ generated = g.emit (g.plan modules) ∧
        ∃ plan ∈ g.plan modules, ∃ bound ∈ plan.methods,
          bound.2.parameterTexts = ["double? cancellationToken_", "string cancellationToken",
            "bool? @event = default", "CancellationToken cancellationToken__ = default"] ∧
          generated.Declares plan.fragmentName bound.2 ∧ bound.2.ListsParameters g bound.1 := by
  intro modules
  have hOk : (generate {} modules).map (fun _ => ()) = .ok () := by decide +kernel
  obtain ⟨generated, hGenerated, -⟩ := map_ok hOk
  obtain ⟨g, hg, hEmit, hLists⟩ := listsParameters_of_generate hGenerated
  obtain ⟨other, hOther, plan, hPlan, bound, hBound, hTexts⟩ :=
    Generator.exists_bound_of_any {} modules
      (·.2.parameterTexts == ["double? cancellationToken_", "string cancellationToken",
        "bool? @event = default", "CancellationToken cancellationToken__ = default"])
      (by decide +kernel)
  obtain rfl : other = g := Except.ok.inj (hOther.symm.trans hg)
  exact ⟨generated, hGenerated, other, hg, hEmit, plan, hPlan, bound, hBound,
    beq_iff_eq.mp hTexts, hLists plan hPlan bound hBound⟩

end ScriptBindings
