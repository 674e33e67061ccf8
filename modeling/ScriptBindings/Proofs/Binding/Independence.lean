import Mathlib.Data.List.Flatten
import Mathlib.Data.List.Perm.Subperm
import ScriptBindings.Proofs.Binding.Collisions

/-! Modules are generated independently. Neither what is made of a module
nor the scaffold depends on the modules beside it, and modules that may be
generated together may be generated in any selection and order. -/
namespace ScriptBindings

namespace Generator

variable {g : Generator} {modules kept : List ScriptModule}

/-- The part of the runtime class that implements one module. -/
def fragmentOf (g : Generator) (m : ScriptModule) : Fragment :=
  ⟨g.fragmentName m, g.moduleText (g.planModule m)⟩

/-- The fragments are made module by module, each from its own plan. Nothing
of one module can be seen in the fragment of another. -/
theorem modules_emit_plan :
    (g.emit (g.plan modules)).modules = modules.map g.fragmentOf := by
  rw [emit, plan, List.map_map]
  rfl

/-- Names that do not repeat among the modules do not repeat among some of
them, in whatever order. -/
theorem DistinctNames.of_subperm (h : g.DistinctNames modules) (hKept : kept.Subperm modules) :
    g.DistinctNames kept := by
  obtain ⟨selection, hOrder, hSelection⟩ := hKept
  constructor
  · have hSublist : (g.memberNames selection).Sublist (g.memberNames modules) :=
      (hSelection.flatMap _).append_left g.reservedMembers
    have hPerm : (g.memberNames selection).Perm (g.memberNames kept) :=
      (hOrder.flatMap_right _).append_left g.reservedMembers
    exact hPerm.nodup_iff.mp (h.members.sublist hSublist)
  · have hSublist : (g.fragmentNames selection).Sublist (g.fragmentNames modules) :=
      hSelection.map g.fragmentName
    have hPerm : (g.fragmentNames selection).Perm (g.fragmentNames kept) :=
      hOrder.map g.fragmentName
    exact hPerm.nodup_iff.mp (h.fragments.sublist hSublist)
  · intro m hm
    exact h.parameters m (hSelection.subset (hOrder.mem_iff.mpr hm))

end Generator

/-- Modules that are generated together are generated alike in any selection
and order: the scaffold stays, and each module gets the same fragment. -/
theorem generate_of_subperm {s : Settings} {modules kept : List ScriptModule}
    {sources : GeneratedSources} (hSources : generate s modules = .ok sources)
    (hKept : kept.Subperm modules) :
    ∃ again, generate s kept = .ok again ∧ again.scaffold = sources.scaffold ∧
      ∃ fragmentOf : ScriptModule → Fragment,
        sources.modules = modules.map fragmentOf ∧ again.modules = kept.map fragmentOf := by
  obtain ⟨g, hg, hNames, rfl⟩ := (Generator.generate_eq_ok_iff modules).mp hSources
  have hAgain : generate s kept = .ok (g.emit (g.plan kept)) :=
    (Generator.generate_eq_ok_iff kept).mpr ⟨g, hg, hNames.of_subperm hKept, rfl⟩
  refine ⟨g.emit (g.plan kept), hAgain, rfl, g.fragmentOf, ?_, ?_⟩
  · exact Generator.modules_emit_plan
  · exact Generator.modules_emit_plan

/-- Two of three modules, in the other order, under the default settings. -/
theorem generate_of_subperm_default :
    let clock : ScriptModule :=
      ⟨"clock.d.ts", "clock", "/clock.js", [⟨"now", [], [], .primitive .number, none⟩]⟩
    let store : ScriptModule :=
      ⟨"data/store.d.ts", "store", "/data/store.js",
        [⟨"get", [], [⟨"key", .primitive .string, false⟩], .primitive .string, none⟩]⟩
    let log : ScriptModule :=
      ⟨"log.d.ts", "log", "/log.js", [⟨"write", [], [], .primitive .void, none⟩]⟩
    ∃ sources again, generate {} [clock, store, log] = .ok sources ∧
      [log, clock].Subperm [clock, store, log] ∧ generate {} [log, clock] = .ok again ∧
      again.scaffold = sources.scaffold ∧
      ∃ fragmentOf : ScriptModule → Fragment,
        sources.modules = [clock, store, log].map fragmentOf ∧
          again.modules = [log, clock].map fragmentOf := by
  intro clock store log
  have hOk : (generate {} [clock, store, log]).map (fun _ => ()) = .ok () := by decide +kernel
  obtain ⟨sources, hSources, -⟩ := Outcomes.map_ok hOk
  have hKept : [log, clock].Subperm [clock, store, log] := by decide +kernel
  obtain ⟨again, hAgain, hSame⟩ := generate_of_subperm hSources hKept
  exact ⟨sources, again, hSources, hKept, hAgain, hSame⟩

end ScriptBindings
