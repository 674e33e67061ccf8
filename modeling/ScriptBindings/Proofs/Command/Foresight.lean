import ScriptBindings.Proofs.Command.Untouched

/-! A check foretells the strict generation under the same settings. Both
read the same project and try the same generation. They look at the faults
in different orders, but the check succeeds exactly where there is none, and
there the generation begins to write. -/
namespace ScriptBindings

/-- All that can be done before anything is written: the settings at a path
are loaded, the sources of their modules are read, no declaration is at
fault, and nothing collides among what is generated for the modules. -/
structure FileTree.Generates (tree : FileTree) (path : String) (project : Project)
    (generated : GeneratedSources) : Prop where
  settings : tree.settings path = .ok project.settings
  base : project.base = Path.parent path
  reading : ∃ found, tree.sources project.base project.settings.inputs = .ok found ∧
    project.reading = readModules found
  faultless : project.reading.hasErrors = false
  generated : generate project.settings project.reading.modules = .ok generated

variable {tree : FileTree} {path : String} {project : Project} {generated : GeneratedSources}

open Outcomes in
/-- A project that was loaded consists of its settings, the directory of
these and what was read of the sources that they name. -/
theorem FileTree.project_ok_iff : tree.project path = .ok project ↔
    tree.settings path = .ok project.settings ∧ project.base = Path.parent path ∧
      ∃ found, tree.sources project.base project.settings.inputs = .ok found ∧
        project.reading = readModules found := by
  rw [project_eq]
  constructor
  · intro h
    obtain ⟨settings, hSettings, h⟩ := bind_ok h
    obtain ⟨found, hFound, h⟩ := bind_ok h
    cases h
    exact ⟨hSettings, rfl, found, mapError_ok hFound, rfl⟩
  · obtain ⟨settings, base, reading⟩ := project
    rintro ⟨hSettings, rfl, found, hFound, rfl⟩
    dsimp only at hFound
    rw [hSettings, ok_bind, hFound]
    rfl

/-- To generate is to load the project, to find no fault in it and to have
the sources made for it. -/
theorem FileTree.generates_iff : tree.Generates path project generated ↔
    tree.project path = .ok project ∧ project.reading.hasErrors = false ∧
      generate project.settings project.reading.modules = .ok generated := by
  rw [project_ok_iff]
  constructor
  · rintro ⟨hSettings, hBase, hReading, hFaultless, hGenerated⟩
    exact ⟨⟨hSettings, hBase, hReading⟩, hFaultless, hGenerated⟩
  · rintro ⟨⟨hSettings, hBase, hReading⟩, hFaultless, hGenerated⟩
    exact ⟨hSettings, hBase, hReading, hFaultless, hGenerated⟩

namespace CheckOptions

variable {options : CheckOptions}

/-- What checking does depends on the loaded project and nothing else of the
tree. -/
theorem outcome_eq (options : CheckOptions) (tree : FileTree) :
    (Command.check options).outcome tree =
      (match tree.project options.settingsPath with
        | .error error => { failure := some error }
        | .ok project => options.report project, tree) := by
  change options.run (m := StateM FileTree) tree = _
  rw [run, bind_apply, FileTree.run_loadProject]
  cases tree.project options.settingsPath <;> rfl

/-- A report looks at the generation first, and then at the declarations. -/
theorem failure_report_eq_none_iff : (options.report project).failure = none ↔
    project.reading.hasErrors = false ∧
      ∃ generated, generate project.settings project.reading.modules = .ok generated := by
  cases hGenerate : generate project.settings project.reading.modules with
  | error error =>
      unfold report
      dsimp only
      rw [hGenerate]
      split <;> simp [failure?]
  | ok generated =>
      unfold report
      dsimp only
      rw [hGenerate]
      split <;> simp [failure?]

/-- Checking succeeds exactly if generating would have something to
write. -/
theorem succeeds_iff : ((Command.check options).outcome tree).1.failure = none ↔
    ∃ project generated, tree.Generates options.settingsPath project generated := by
  simp only [FileTree.generates_iff]
  rw [outcome_eq]
  cases tree.project options.settingsPath with
  | error error => simp
  | ok project => simp [failure_report_eq_none_iff]

end CheckOptions

namespace GenerateOptions

variable {options : GenerateOptions}

/-- A strict generation is prevented exactly where not all can be done that
it does first. -/
theorem exists_prevented_iff (hStrict : options.strict = true) :
    (∃ error, options.Prevented tree error) ↔
      ¬∃ project generated, tree.Generates options.settingsPath project generated := by
  simp only [FileTree.generates_iff]
  constructor
  · rintro ⟨error, hPrevented⟩ ⟨project, generated, hProject, hFaultless, hGenerated⟩
    cases hPrevented with
    | project hFault =>
        rw [FileTree.project_error_iff.mpr hFault] at hProject
        cases hProject
    | declarations hOther _ hErrors =>
        cases hOther.symm.trans hProject
        rw [hFaultless] at hErrors
        cases hErrors
    | generation hOther _ hCollides =>
        cases hOther.symm.trans hProject
        rw [hGenerated] at hCollides
        cases hCollides
  · intro hNone
    cases hProject : tree.project options.settingsPath with
    | error error => exact ⟨error, .project (FileTree.project_error_iff.mp hProject)⟩
    | ok project =>
        cases hErrors : project.reading.hasErrors with
        | true => exact ⟨_, .declarations hProject hStrict hErrors⟩
        | false =>
            cases hGenerate : generate project.settings project.reading.modules with
            | error error =>
                exact ⟨_, .generation hProject (by rw [hErrors, Bool.and_false]) hGenerate⟩
            | ok generated => exact absurd ⟨project, generated, hProject, hErrors, hGenerate⟩ hNone

/-- What is prevented fails, and for another reason than its writing. The
faults of writing are the only ones that cannot be foretold. -/
theorem exists_prevented_iff_failure : (∃ error, options.Prevented tree error) ↔
    ∃ error, ((Command.generate options).outcome tree).1.failure = some error ∧
      ∀ fault, error ≠ .storage fault := by
  constructor
  · rintro ⟨error, hPrevented⟩
    refine ⟨error, hPrevented.outcome.1, ?_⟩
    rintro fault rfl
    cases hPrevented with
    | project hFault => cases hFault with
      | settings hFault => cases hFault
  · rintro ⟨error, hFailure, hStorage⟩
    exact ⟨error, prevented_of_failure hFailure hStorage⟩

/-- Where a project generates, all that is left to the command is writing
the sources and reporting on it. -/
theorem outcome_of_generates (h : tree.Generates options.settingsPath project generated) :
    (Command.generate options).outcome tree =
      let written := (generated.write (m := StateM FileTree) (options.directory project)
        project.settings.output).run tree
      (options.writeReport project written.1, written.2) := by
  obtain ⟨hProject, hFaultless, hGenerated⟩ := FileTree.generates_iff.mp h
  rw [outcome_of_project hProject, hFaultless, Bool.and_false, hGenerated]
  rfl

end GenerateOptions

/-- A check succeeds, with either kind of report, exactly where the strict
generation under the same settings fails at most while it writes. Both mean
that there are sources to write, and then the generation does nothing but
write them. -/
theorem check_foretells_generation (tree : FileTree) (path : String) (json : Bool)
    (output : Option String) :
    let check := (Command.check ⟨path, json⟩).outcome tree
    let generation := (Command.generate ⟨path, output, true⟩).outcome tree
    (check.1.failure = none ↔
      ∀ error, generation.1.failure = some error → ∃ fault, error = .storage fault) ∧
    (check.1.failure = none ↔ ∃ project generated, tree.Generates path project generated) ∧
    ∀ project generated, tree.Generates path project generated →
      generation =
        let written := (generated.write (m := StateM FileTree)
          (GenerateOptions.directory ⟨path, output, true⟩ project) project.settings.output).run tree
        (GenerateOptions.writeReport ⟨path, output, true⟩ project written.1, written.2) := by
  refine ⟨?_, CheckOptions.succeeds_iff, fun project generated h =>
    GenerateOptions.outcome_of_generates h⟩
  have hPrevented : (∃ error, GenerateOptions.Prevented ⟨path, output, true⟩ tree error) ↔
      ¬∃ project generated, tree.Generates path project generated :=
    GenerateOptions.exists_prevented_iff rfl
  rw [GenerateOptions.exists_prevented_iff_failure] at hPrevented
  rw [CheckOptions.succeeds_iff, ← not_iff_not, ← hPrevented]
  push Not
  rfl

open Outcomes in
/-- One module without faults. -/
theorem check_foretells_generation_of_one_module :
    ∃ tree, FileTree.ofFiles
        [("tsinterop.toml", ""), ("m.d.ts", "export function f(x?: string): void;")] = .ok tree ∧
      ∃ project generated, tree.Generates defaultSettingsPath project generated ∧
        ((Command.check { json := true }).outcome tree).1.failure = none ∧
        (Command.generate { strict := true }).outcome tree =
          let written := (generated.write (m := StateM FileTree)
            (GenerateOptions.directory { strict := true } project) project.settings.output).run tree
          (GenerateOptions.writeReport { strict := true } project written.1, written.2) := by
  have hRead : (FileTree.ofFiles
      [("tsinterop.toml", ""), ("m.d.ts", "export function f(x?: string): void;")]).map (fun tree =>
        (tree.project defaultSettingsPath).map fun project =>
          (project.reading.hasErrors,
            (generate project.settings project.reading.modules).map fun _ => ())) =
      .ok (.ok (false, .ok ())) := by
    decide +kernel
  obtain ⟨tree, hTree, hRead⟩ := map_ok hRead
  obtain ⟨project, hProject, hRead⟩ := map_ok hRead
  obtain ⟨hFaultless, hGenerated⟩ := Prod.mk.inj hRead
  obtain ⟨generated, hGenerated, -⟩ := map_ok hGenerated
  have hGenerates : tree.Generates defaultSettingsPath project generated :=
    FileTree.generates_iff.mpr ⟨hProject, hFaultless, hGenerated⟩
  obtain ⟨-, hCheck, hWrites⟩ := check_foretells_generation tree defaultSettingsPath true none
  exact ⟨tree, hTree, project, generated, hGenerates, hCheck.mpr ⟨project, generated, hGenerates⟩,
    hWrites project generated hGenerates⟩

end ScriptBindings
