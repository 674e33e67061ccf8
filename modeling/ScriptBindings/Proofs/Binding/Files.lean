import Mathlib.Data.List.Nodup
import ScriptBindings.Proofs.Binding.Independence

/-! The files of the generated sources, each named after its fragment. The
names of the modules' fragments never repeat, and the runtime class and the
interface are named apart; but these two are claimed as members only, so
that a module's fragment may be named like one of them. Then one file is
written over the other. -/
namespace ScriptBindings

open Outcomes

/-- The suffix is the same for all files, so that their names differ where
the fragments' do. -/
theorem OutputSettings.fileName_injective (output : OutputSettings) :
    Function.Injective output.fileName := by
  intro first second h
  have hText := congrArg String.toList h
  rw [fileName, fileName, String.toList_append, String.toList_append] at hText
  exact String.toList_inj.mp (List.append_cancel_right hText)

namespace GeneratedSources

def names (sources : GeneratedSources) : List String :=
  sources.fragments.map (·.name)

/-- The files that are written, in order. -/
def fileNames (sources : GeneratedSources) (output : OutputSettings) : List String :=
  sources.names.map output.fileName

variable {sources : GeneratedSources}

/-- Files are written over each other exactly if fragments share a name. -/
theorem nodup_fileNames_iff (output : OutputSettings) :
    (sources.fileNames output).Nodup ↔ sources.names.Nodup :=
  List.nodup_map_iff output.fileName_injective

/-- Only a module's fragment can then share its name with the scaffold or
the interface. -/
theorem nodup_names_iff (hApart : sources.scaffold.name ≠ sources.interface.name)
    (hModules : (sources.modules.map (·.name)).Nodup) :
    sources.names.Nodup ↔
      ∀ fragment ∈ sources.modules,
        fragment.name ≠ sources.scaffold.name ∧ fragment.name ≠ sources.interface.name := by
  rw [names, fragments, List.map_cons, List.map_cons, List.nodup_cons, List.nodup_cons,
    List.mem_cons]
  constructor
  · rintro ⟨hScaffold, hInterface, -⟩ fragment hFragment
    have hName := List.mem_map_of_mem (f := (·.name)) hFragment
    refine ⟨fun hSame => hScaffold (Or.inr ?_), fun hSame => hInterface ?_⟩
    · rwa [hSame] at hName
    · rwa [hSame] at hName
  · intro h
    refine ⟨?_, ?_, hModules⟩
    · rintro (hSame | hMem)
      · exact hApart hSame
      · obtain ⟨fragment, hFragment, hSame⟩ := List.mem_map.mp hMem
        exact (h fragment hFragment).1 hSame
    · intro hMem
      obtain ⟨fragment, hFragment, hSame⟩ := List.mem_map.mp hMem
      exact (h fragment hFragment).2 hSame

end GeneratedSources

namespace Generator

variable {g : Generator} {modules : List ScriptModule}

/-- Both are members that the scaffold reserves. -/
theorem DistinctNames.className_ne_interfaceName (h : g.DistinctNames modules) :
    g.className ≠ g.interfaceName := by
  have hReserved : g.reservedMembers.Nodup := (List.nodup_append.mp h.members).1
  have hOwn : [g.className, g.interfaceName, g.settings.preloadAllName].Nodup :=
    (List.nodup_append.mp hReserved).2.1
  exact fun hSame => (List.nodup_cons.mp hOwn).1 (hSame ▸ List.mem_cons_self)

/-- The fragments of the modules have the names that were claimed for
them. -/
theorem names_modules_emit_plan :
    (g.emit (g.plan modules)).modules.map (·.name) = g.fragmentNames modules := by
  rw [modules_emit_plan, List.map_map]
  rfl

/-- The class and the interface are members of one ledger, so that their
files differ. -/
theorem scaffold_ne_interface_emit_plan (h : g.DistinctNames modules) :
    (g.emit (g.plan modules)).scaffold.name ≠ (g.emit (g.plan modules)).interface.name :=
  h.className_ne_interfaceName

/-- The names of fragments are claimed in a ledger of their own and do not
repeat there. -/
theorem nodup_modules_emit_plan (h : g.DistinctNames modules) :
    ((g.emit (g.plan modules)).modules.map (·.name)).Nodup := by
  rw [names_modules_emit_plan]
  exact h.fragments

/-- What the claims leave open is only whether a fragment is named like the
class or the interface. -/
theorem nodup_fileNames_emit_plan_iff (h : g.DistinctNames modules) (output : OutputSettings) :
    ((g.emit (g.plan modules)).fileNames output).Nodup ↔
      ∀ fragment ∈ (g.emit (g.plan modules)).modules,
        fragment.name ≠ g.className ∧ fragment.name ≠ g.interfaceName := by
  rw [GeneratedSources.nodup_fileNames_iff]
  exact GeneratedSources.nodup_names_iff (scaffold_ne_interface_emit_plan h)
    (nodup_modules_emit_plan h)

end Generator

/-- Among the files of the generated sources, those of the modules are
distinct and those of the runtime class and the interface are. All are
distinct exactly when no module's fragment is named like the class or the
interface. -/
theorem nodup_fileNames_generate_iff {s : Settings} {modules : List ScriptModule}
    {sources : GeneratedSources} (h : generate s modules = .ok sources) :
    sources.scaffold.name ≠ sources.interface.name ∧ (sources.modules.map (·.name)).Nodup ∧
      ((sources.fileNames s.output).Nodup ↔
        ∀ fragment ∈ sources.modules,
          fragment.name ≠ sources.scaffold.name ∧ fragment.name ≠ sources.interface.name) := by
  obtain ⟨g, -, hNames, rfl⟩ := (Generator.generate_eq_ok_iff modules).mp h
  exact ⟨Generator.scaffold_ne_interface_emit_plan hNames, Generator.nodup_modules_emit_plan hNames,
    Generator.nodup_fileNames_emit_plan_iff hNames s.output⟩

/-- One module under the default settings. -/
theorem nodup_fileNames_generate_default :
    ∃ sources, generate {} [⟨"clock.d.ts", "clock", "/clock.js", []⟩] = .ok sources ∧
      sources.scaffold.name ≠ sources.interface.name ∧ (sources.modules.map (·.name)).Nodup ∧
      ((sources.fileNames {}).Nodup ↔
        ∀ fragment ∈ sources.modules,
          fragment.name ≠ sources.scaffold.name ∧ fragment.name ≠ sources.interface.name) := by
  have hOk : (generate {} [⟨"clock.d.ts", "clock", "/clock.js", []⟩]).map (fun _ => ()) =
      .ok () := by
    decide +kernel
  obtain ⟨sources, hSources, -⟩ := map_ok hOk
  exact ⟨sources, hSources, nodup_fileNames_generate_iff hSources⟩

/-- Under the pattern `name`, the module `TSRuntime` gets the file of the
runtime class. -/
theorem fileNames_not_nodup :
    ∃ sources, generate { namePatterns := { module := ⟨"\x7bname\x7d", .pascal⟩ } }
        [⟨"TSRuntime.d.ts", "TSRuntime", "/TSRuntime.js",
          [⟨"ping", [], [], .primitive .void, none⟩]⟩] = .ok sources ∧
      sources.fileNames {} = ["TSRuntime.g.cs", "ITSRuntime.g.cs", "TSRuntime.g.cs"] ∧
      ¬(sources.fileNames {}).Nodup := by
  have hFiles : (generate { namePatterns := { module := ⟨"\x7bname\x7d", .pascal⟩ } }
      [⟨"TSRuntime.d.ts", "TSRuntime", "/TSRuntime.js",
        [⟨"ping", [], [], .primitive .void, none⟩]⟩]).map (·.fileNames {}) =
      .ok ["TSRuntime.g.cs", "ITSRuntime.g.cs", "TSRuntime.g.cs"] := by
    decide +kernel
  obtain ⟨sources, hSources, hNames⟩ := map_ok hFiles
  refine ⟨sources, hSources, hNames, ?_⟩
  rw [hNames]
  decide

end ScriptBindings
