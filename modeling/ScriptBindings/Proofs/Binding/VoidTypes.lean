import ScriptBindings.Proofs.Binding.Methods
import ScriptBindings.Proofs.Declaration.Parsed
import ScriptBindings.Proofs.HostType.Void

/-! Where methods use `void`. The result of a method may be `void`, and a
function may declare parameters without values: then the method has a
parameter of type `void`, an array of it, or a nullable form of it, none of
which the host language knows. -/
namespace ScriptBindings

open Outcomes TypeExpr TypeMap

/-- A method takes `void` where the function takes a type without values. It
misuses `void` in an array of such a type and in an optional parameter of
it. -/
structure Method.UsesVoid (f : Signature) (m : Method) : Prop where
  alone : List.Forall₂
    (fun p host => host.hostType = "void" ∨ host.hostType = "void?" ↔ p.type.IsVoid)
    f.parameters m.parameters
  misused : List.Forall₂
    (fun p host => MisusesVoid host.hostType.toList ↔
      p.type.WrapsVoid ∨ p.optional = true ∧ p.type.EndsInVoid)
    f.parameters m.parameters
  result : MisusesVoid m.returnType.toList ↔ f.resultType.WrapsVoid

namespace TypeMap

variable {host : String} {t : TypeExpr}

/-- The nullable form of `void` is a misuse; that of any other host type
makes one of a `void` at its end. -/
theorem usesVoid_nullable (h : ShowsVoidAs host t) :
    (nullable host = "void" ∨ nullable host = "void?" ↔ t.IsVoid) ∧
      (MisusesVoid (nullable host).toList ↔ t.WrapsVoid ∨ t.EndsInVoid) := by
  by_cases hVoid : t.IsVoid
  · rw [String.toList_inj.mp (h.alone.mpr hVoid)]
    exact ⟨iff_of_true (by decide) hVoid, iff_of_true (by decide) (Or.inr (.alone hVoid))⟩
  · have hMarked := showsVoid_nullable (h.congr (iff_false_intro hVoid) Iff.rfl Iff.rfl)
    constructor
    · refine iff_of_false ?_ hVoid
      rintro (hSame | hSame)
      · exact hMarked.alone.mp (by rw [hSame]; rfl)
      · exact hMarked.unmarked (by rw [hSame]; rfl)
    · rw [hMarked.misuse, or_comm]

/-- For one type: being `void` and misusing it are both read off the
structure of the declared type. -/
theorem usesVoid_plain (h : ShowsVoidAs host t) :
    (host = "void" ∨ host = "void?" ↔ t.IsVoid) ∧ (MisusesVoid host.toList ↔ t.WrapsVoid) := by
  refine ⟨?_, h.misuse⟩
  rw [← h.alone, String.toList_inj, or_iff_left]
  · rfl
  · rintro rfl
    exact h.unmarked rfl

end TypeMap

namespace Generator

variable {g : Generator}

/-- An optional parameter appends a question mark after the type was mapped,
and this is the one place where a nullable `void` can come from. -/
theorem usesVoid_parameterHost {p : Parameter} (h : ShowsVoidAs (g.typeMap.host p.type) p.type) :
    (g.parameterHost p = "void" ∨ g.parameterHost p = "void?" ↔ p.type.IsVoid) ∧
      (MisusesVoid (g.parameterHost p).toList ↔
        p.type.WrapsVoid ∨ p.optional = true ∧ p.type.EndsInVoid) := by
  unfold parameterHost
  cases p.optional with
  | true => simpa using usesVoid_nullable h
  | false => simpa using usesVoid_plain h

/-- A method is looked at as a whole, its result and each of its parameters,
with nothing assumed of the other members. -/
theorem usesVoid_method (hEmpty : g.typeMap.overrides = .empty)
    (hFallback : ¬voidType.toList <:+: g.typeMap.fallback.toList) (m : ScriptModule)
    {f : Signature} (hParsed : f.Parsed) (flavour : Flavour) :
    (g.method m f flavour).UsesVoid f := by
  have hShows {t : TypeExpr} (h : Scoped f.genericNames t) : ShowsVoidAs (g.typeMap.host t) t :=
    showsVoidAs_host hEmpty hFallback h
  have hParameter {p : Parameter} (hp : p ∈ f.parameters) :=
    usesVoid_parameterHost (hShows (hParsed.parameters p hp).2)
  have hResult := hShows hParsed.resultType
  refine ⟨forall₂_hostParameters fun p hp _ => (hParameter hp).1,
    forall₂_hostParameters fun p hp _ => (hParameter hp).2, ?_⟩
  unfold Method.returnType
  split
  · exact (showsVoidAs_taskOf hResult).misuse.trans wrapsVoid_promiseOf_iff
  · exact hResult.misuse

end Generator

/-- The uses of `void` in what is generated for modules that were read,
without overrides and with a fallback that does not mention it. -/
theorem usesVoid_of_generate {s : Settings} {sources : List (String × String)}
    {generated : GeneratedSources} (hEmpty : s.overrides = .empty)
    (hFallback : ¬voidType.toList <:+: s.fallbackType.toList)
    (h : generate s (readModules sources).modules = .ok generated) :
    ∃ g, Generator.ofSettings s = .ok g ∧
      generated = g.emit (g.plan (readModules sources).modules) ∧
      ∀ plan ∈ g.plan (readModules sources).modules,
        ∀ bound ∈ plan.methods, bound.2.UsesVoid bound.1 := by
  obtain ⟨g, hg, -, rfl⟩ := (Generator.generate_eq_ok_iff _).mp h
  obtain ⟨hSettings, -⟩ := Generator.ofSettings_ok hg
  refine ⟨g, hg, rfl, Generator.forall_bound_plan_iff.mpr fun m hm f hf flavour _ => ?_⟩
  rw [← hSettings] at hEmpty hFallback
  exact Generator.usesVoid_method hEmpty hFallback m ((parsed_of_mem_readModules hm).functions f hf)
    flavour

/-- A promise without a result, a nullable one and a parameter without a
value. -/
theorem usesVoid_of_generate_default :
    let modules := (readModules
      [("m.d.ts", "export function f(a: undefined, b?: string[]): Promise<void | null>;")]).modules
    Settings.overrides {} = .empty ∧ ¬voidType.toList <:+: (Settings.fallbackType {}).toList ∧
      ∃ generated, generate {} modules = .ok generated ∧
        ∃ g, Generator.ofSettings {} = .ok g ∧ generated = g.emit (g.plan modules) ∧
          ∀ plan ∈ g.plan modules, ∀ bound ∈ plan.methods, bound.2.UsesVoid bound.1 := by
  intro modules
  have hFallback : ¬voidType.toList <:+: (Settings.fallbackType {}).toList := by decide
  have hOk : (generate {} modules).map (fun _ => ()) = .ok () := by decide +kernel
  obtain ⟨generated, hGenerated, -⟩ := map_ok hOk
  exact ⟨rfl, hFallback, generated, hGenerated, usesVoid_of_generate rfl hFallback hGenerated⟩

/-- An array of `void` and an optional `void` are generated. -/
theorem generated_types_misuse_void :
    let modules := (readModules
      [("m.d.ts", "export function f(slots: undefined[], last?: undefined): string;")]).modules
    ∃ generated g, generate {} modules = .ok generated ∧ Generator.ofSettings {} = .ok g ∧
      ∃ plan ∈ g.plan modules, ∃ bound ∈ plan.methods,
        bound.2.parameters.map (·.hostType) = ["void[]", "void?"] ∧
          MisusesVoid "void[]".toList ∧ MisusesVoid "void?".toList := by
  intro modules
  have hOk : (generate {} modules).map (fun _ => ()) = .ok () := by decide +kernel
  obtain ⟨generated, hGenerated, -⟩ := map_ok hOk
  obtain ⟨g, hg, plan, hPlan, bound, hBound, hTypes⟩ :=
    Generator.exists_bound_of_any {} modules
      (fun bound => bound.2.parameters.map (·.hostType) == ["void[]", "void?"])
      (by decide +kernel)
  exact ⟨generated, g, hGenerated, hg, plan, hPlan, bound, hBound, beq_iff_eq.mp hTypes,
    by decide, by decide⟩

end ScriptBindings
