import ScriptBindings.Command.Run
import ScriptBindings.Proofs.Outcomes
import ScriptBindings.Proofs.Storage.ReadOnly

/-! What the commands leave untouched. A generation that fails before it
begins to write leaves the storage as it was, and so does every check. -/
namespace ScriptBindings

open Outcomes

/-! ### Reading a project -/

namespace FileTree

/-- Loading the settings asks for a file and its text, and writes
nothing. -/
theorem readOnly_loadSettings (path : String) :
    ReadOnly (loadSettings path : ExceptT CommandError (StateM FileTree) Settings).run := by
  refine (readOnly_kind? path).lift.except_bind fun kind => ?_
  dsimp only
  split
  · exact .throw _
  · refine (readOnly_readText path).lift.except_bind fun outcome => ?_
    cases outcome with
    | error fault => exact .throw _
    | ok text =>
        dsimp only
        split
        · exact .except_pure _
        · exact .throw _

/-- Loading a project reads settings, directories and sources, none of which
changes the tree. -/
theorem readOnly_loadProject (path : String) :
    ReadOnly (loadProject path : ExceptT CommandError (StateM FileTree) Project).run := by
  refine (readOnly_loadSettings path).except_bind fun settings => ?_
  exact ((readOnly_collectSources _ _).adapt _).except_bind fun sources => .except_pure _

variable (tree : FileTree)

/-- The settings at a path. -/
def settings (path : String) : Except CommandError Settings :=
  outcome (loadSettings path) tree

/-- The module paths and texts that the inputs lead to. -/
def sources (base : String) (inputs : List InputRoot) :
    Except UnreadableModule (List (String × String)) :=
  outcome (collectSources base inputs) tree

/-- The project that the settings at a path describe. -/
def project (path : String) : Except CommandError Project :=
  outcome (loadProject path) tree

/-- Since loading only reads, it is a function of the tree, and that
function is named. -/
theorem run_loadProject (path : String) :
    (loadProject (m := StateM FileTree) path).run tree = (tree.project path, tree) :=
  (readOnly_loadProject path).run_eq tree

/-- What prevents that settings are loaded. -/
inductive SettingsFault (path : String) : CommandError → Prop where
  | missing (hMissing : tree.kind? path = none) : SettingsFault path (.settingsMissing path)
  | unreadable {fault : StorageFault} (hFound : tree.kind? path ≠ none)
      (hText : tree.readText path = .error fault) :
      SettingsFault path (.settingsUnreadable path fault)
  | invalid {text : String} (hFound : tree.kind? path ≠ none) (hText : tree.readText path = .ok text)
      (hParse : Settings.parse? (.ofPath path) text = none) :
      SettingsFault path (.settingsInvalid path)

/-- What prevents that a project is read: its settings, or one of its
modules. -/
inductive ProjectFault (path : String) : CommandError → Prop where
  | settings {error : CommandError} (hFault : tree.SettingsFault path error) :
      ProjectFault path error
  | module {settings : Settings} {unreadable : UnreadableModule}
      (hSettings : tree.settings path = .ok settings)
      (hSources : tree.sources (Path.parent path) settings.inputs = .error unreadable) :
      ProjectFault path (.moduleUnreadable unreadable.path unreadable.fault)

variable {tree} {path : String} {error : CommandError}

/-- The settings of a tree as it computes them: a missing file is told from
one that cannot be read or understood. -/
theorem settings_eq (tree : FileTree) (path : String) :
    tree.settings path =
      if (tree.kind? path).isNone then .error (.settingsMissing path)
      else match tree.readText path with
        | .error fault => .error (.settingsUnreadable path fault)
        | .ok text =>
            match Settings.parse? (.ofPath path) text with
            | some settings => .ok settings
            | none => .error (.settingsInvalid path) := by
  rw [settings, loadSettings, outcome_kind?_bind]
  dsimp only
  split
  · rfl
  · rw [outcome_readText_bind]
    cases tree.readText path with
    | error fault => rfl
    | ok text =>
        dsimp only
        cases Settings.parse? (.ofPath path) text <;> rfl

/-- Each way for the settings to fail, and what is reported for it. -/
theorem settings_error_iff : tree.settings path = .error error ↔ tree.SettingsFault path error := by
  rw [settings_eq]
  constructor
  · intro h
    split at h
    · next hMissing =>
        cases h
        exact .missing (Option.isNone_iff_eq_none.mp hMissing)
    · next hFound =>
        rw [Option.isNone_iff_eq_none] at hFound
        split at h
        · next fault hText =>
            cases h
            exact .unreadable hFound hText
        · next text hText =>
            split at h
            · cases h
            · next hParse =>
                cases h
                exact .invalid hFound hText hParse
  · intro h
    cases h with
    | missing hMissing => rw [hMissing]; rfl
    | unreadable hFound hText =>
        rw [if_neg (by rwa [Option.isNone_iff_eq_none]), hText]
    | invalid hFound hText hParse =>
        rw [if_neg (by rwa [Option.isNone_iff_eq_none]), hText]
        dsimp only
        rw [hParse]

/-- The project of a tree as it computes it, with the faults of storage
turned into those of the command. -/
theorem project_eq (tree : FileTree) (path : String) :
    tree.project path = do
      let settings ← tree.settings path
      let found ← (tree.sources (Path.parent path) settings.inputs).mapError fun unreadable =>
        .moduleUnreadable unreadable.path unreadable.fault
      return { settings, base := Path.parent path, reading := readModules found } := by
  rw [project, loadProject, (readOnly_loadSettings path).outcome_bind]
  refine bind_congr fun settings => ?_
  rw [((readOnly_collectSources _ _).adapt _).outcome_bind]
  rfl

/-- Each way for a project to fail, found independently of how it is
loaded. -/
theorem project_error_iff : tree.project path = .error error ↔ tree.ProjectFault path error := by
  rw [project_eq]
  constructor
  · intro h
    rcases bind_error h with hSettings | ⟨settings, hSettings, h⟩
    · exact .settings (settings_error_iff.mp hSettings)
    · rcases bind_error h with hSources | ⟨found, -, h⟩
      · obtain ⟨unreadable, hUnreadable, rfl⟩ := mapError_error hSources
        exact .module hSettings hUnreadable
      · cases h
  · intro h
    cases h with
    | settings hFault => rw [settings_error_iff.mpr hFault, error_bind]
    | module hSettings hSources =>
        rw [hSettings, ok_bind, hSources]
        rfl

end FileTree

/-! ### Commands -/

/-- What a command reports and leaves behind. -/
def Command.outcome (command : Command) (tree : FileTree) : Report × FileTree :=
  command.run (m := StateM FileTree) tree

namespace GenerateOptions

variable {options : GenerateOptions} {tree : FileTree} {error : CommandError}

/-- What prevents that a generation begins to write. -/
inductive Prevented (options : GenerateOptions) (tree : FileTree) : CommandError → Prop where
  | project {error : CommandError} (hFault : tree.ProjectFault options.settingsPath error) :
      Prevented options tree error
  | declarations {project : Project} (hProject : tree.project options.settingsPath = .ok project)
      (hStrict : options.strict = true) (hErrors : project.reading.hasErrors = true) :
      Prevented options tree (.refused project.reading.diagnostics.length)
  | generation {project : Project} {error : GenerationError}
      (hProject : tree.project options.settingsPath = .ok project)
      (hAccepted : (options.strict && project.reading.hasErrors) = false)
      (hGenerate : generate project.settings project.reading.modules = .error error) :
      Prevented options tree (.generation error)

/-- What is reported once it is written, or once writing failed. -/
def writeReport (options : GenerateOptions) (project : Project) :
    Except StorageFault WriteSummary → Report
  | .error fault =>
      { warnings := diagnosticLines project.reading.diagnostics, failure := some (.storage fault) }
  | .ok summary =>
      { output := summaryText project.reading.modules summary (options.directory project)
        warnings := diagnosticLines project.reading.diagnostics }

variable {project : Project}

theorem storage_of_writeReport {result : Except StorageFault WriteSummary}
    (h : (options.writeReport project result).failure = some error) :
    ∃ fault, error = .storage fault := by
  cases result with
  | error fault =>
      cases h
      exact ⟨fault, rfl⟩
  | ok summary => cases h

/-- A project that fails to load ends the run with that failure and the tree
as it was. -/
theorem outcome_of_project_error (h : tree.project options.settingsPath = .error error) :
    (Command.generate options).outcome tree = ({ failure := some error }, tree) := by
  change options.run (m := StateM FileTree) tree = _
  rw [run, bind_apply, FileTree.run_loadProject, h]
  rfl

/-- Once the project is read, it depends on the project alone whether
anything is written. -/
theorem outcome_of_project (hProject : tree.project options.settingsPath = .ok project) :
    (Command.generate options).outcome tree =
      if options.strict && project.reading.hasErrors then
        ({ warnings := diagnosticLines project.reading.diagnostics
           failure := some (.refused project.reading.diagnostics.length) }, tree)
      else match generate project.settings project.reading.modules with
        | .error error =>
            ({ warnings := diagnosticLines project.reading.diagnostics
               failure := some (.generation error) }, tree)
        | .ok sources =>
            let written := (sources.write (m := StateM FileTree) (options.directory project)
              project.settings.output).run tree
            (options.writeReport project written.1, written.2) := by
  change options.run (m := StateM FileTree) tree = _
  rw [run, bind_apply, FileTree.run_loadProject, hProject]
  dsimp only
  split
  · rfl
  · cases generate project.settings project.reading.modules with
    | error error => rfl
    | ok sources =>
        dsimp only
        rw [bind_apply]
        cases ((sources.write (m := StateM FileTree) (options.directory project)
          project.settings.output).run tree).1 <;> rfl

/-- What is prevented leaves no trace but its report. -/
theorem Prevented.outcome (h : options.Prevented tree error) :
    ((Command.generate options).outcome tree).1.failure = some error ∧
      ((Command.generate options).outcome tree).2 = tree := by
  cases h with
  | project hFault =>
      rw [outcome_of_project_error (FileTree.project_error_iff.mpr hFault)]
      exact ⟨rfl, rfl⟩
  | declarations hProject hStrict hErrors =>
      rw [outcome_of_project hProject, hStrict, hErrors]
      exact ⟨rfl, rfl⟩
  | generation hProject hAccepted hGenerate =>
      rw [outcome_of_project hProject, hAccepted, hGenerate]
      exact ⟨rfl, rfl⟩

/-- A generation that fails for another reason than its writing was
prevented. -/
theorem prevented_of_failure (h : ((Command.generate options).outcome tree).1.failure = some error)
    (hStorage : ∀ fault, error ≠ .storage fault) : options.Prevented tree error := by
  cases hProject : tree.project options.settingsPath with
  | error fault =>
      rw [outcome_of_project_error hProject] at h
      cases h
      exact .project (FileTree.project_error_iff.mp hProject)
  | ok project =>
      rw [outcome_of_project hProject] at h
      split at h
      · next hRefused =>
          rw [Bool.and_eq_true] at hRefused
          cases h
          exact .declarations hProject hRefused.1 hRefused.2
      · next hAccepted =>
          split at h
          · next hGenerate =>
              cases h
              exact .generation hProject (Bool.eq_false_iff.mpr hAccepted) hGenerate
          · obtain ⟨fault, hFault⟩ := storage_of_writeReport h
            exact absurd hFault (hStorage fault)

end GenerateOptions

namespace CheckOptions

/-- A check only reads: the tree after it is the tree before, whatever is
reported. -/
theorem outcome_snd (options : CheckOptions) (tree : FileTree) :
    ((Command.check options).outcome tree).2 = tree := by
  have hRun : ReadOnly (options.run : StateM FileTree Report) := by
    refine (FileTree.readOnly_loadProject _).bind fun result => ?_
    cases result with
    | error fault => exact .pure _
    | ok project => exact .pure _
  exact hRun tree

end CheckOptions

/-- A generation that fails for its settings, for a module that cannot be
read, for declarations that are refused or for names that collide leaves the
storage as it was. It fails for no other reason but while writing. A check
always leaves the storage as it was. -/
theorem untouched_of_prevented (tree : FileTree) :
    (∀ options error, GenerateOptions.Prevented options tree error →
      ((Command.generate options).outcome tree).1.failure = some error ∧
        ((Command.generate options).outcome tree).2 = tree) ∧
    (∀ options error, ((Command.generate options).outcome tree).1.failure = some error →
      (∀ fault, error ≠ .storage fault) → GenerateOptions.Prevented options tree error) ∧
    ∀ options, ((Command.check options).outcome tree).2 = tree :=
  ⟨fun _ _ h => h.outcome, fun _ _ h hStorage => GenerateOptions.prevented_of_failure h hStorage,
    fun options => options.outcome_snd tree⟩

/-- The tree with these files, each in a directory that is there. -/
def FileTree.ofFiles (files : List (String × String)) : Except StorageFault FileTree :=
  files.foldlM (fun tree file => tree.writeText file.1 file.2) .empty

/-- A declaration that cannot be read, under strict reading. -/
theorem untouched_of_strict :
    ∃ tree, FileTree.ofFiles
        [("tsinterop.toml", ""), ("m.d.ts", "export function f(): Promise<string;")] = .ok tree ∧
      GenerateOptions.Prevented { strict := true } tree (.refused 1) ∧
      ((Command.generate { strict := true }).outcome tree).1.failure = some (.refused 1) ∧
      ((Command.generate { strict := true }).outcome tree).2 = tree ∧
      ((Command.check {}).outcome tree).2 = tree := by
  have hRead : (FileTree.ofFiles [("tsinterop.toml", ""),
      ("m.d.ts", "export function f(): Promise<string;")]).map (fun tree =>
        (tree.project defaultSettingsPath).map fun project =>
          (project.reading.hasErrors, project.reading.diagnostics.length)) = .ok (.ok (true, 1)) := by
    decide +kernel
  obtain ⟨tree, hTree, hRead⟩ := map_ok hRead
  obtain ⟨project, hProject, hErrors⟩ := map_ok hRead
  obtain ⟨hErrors, hCount⟩ := Prod.mk.inj hErrors
  have hPrevented : GenerateOptions.Prevented { strict := true } tree (.refused 1) :=
    hCount ▸ .declarations hProject rfl hErrors
  obtain ⟨hGenerate, -, hCheck⟩ := untouched_of_prevented tree
  obtain ⟨hFailure, hTreeAfter⟩ := hGenerate _ _ hPrevented
  exact ⟨tree, hTree, hPrevented, hFailure, hTreeAfter, hCheck {}⟩

end ScriptBindings
