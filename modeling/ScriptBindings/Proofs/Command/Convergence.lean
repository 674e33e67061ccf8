import Mathlib.Data.Bool.Count
import ScriptBindings.Proofs.Binding.Files
import ScriptBindings.Proofs.Binding.Marker
import ScriptBindings.Proofs.Command.Untouched
import ScriptBindings.Proofs.Command.Writing

/-! What the output directory converges to. After a generation it holds
exactly the files of the sources among all generated files, whatever earlier
generations left in it, and whatever is not generated is as it was. A second
generation from the same sources changes nothing. -/
namespace ScriptBindings

open FileTree Outcomes

namespace GeneratedSources

variable {sources : GeneratedSources} {directory : String} {output : OutputSettings}
  {tree made after : FileTree} {place : Node.Place} {summary : WriteSummary}

/-- Bringing a directory up to date succeeds, with this summary and this
tree. -/
def Writes (sources : GeneratedSources) (directory : String) (output : OutputSettings)
    (before : FileTree) (summary : WriteSummary) (after : FileTree) : Prop :=
  (sources.write (m := StateM FileTree) directory output).run before = (.ok summary, after)

/-- Sources of a generation that are written to different files of one
directory. -/
structure Proper (sources : GeneratedSources) (output : OutputSettings) : Prop where
  generated : ∃ settings modules, generate settings modules = .ok sources
  distinct : (sources.fileNames output).Nodup
  flat : ∀ name ∈ sources.fileNames output, '/' ∉ name.toList

theorem fileNames_eq (sources : GeneratedSources) (output : OutputSettings) :
    sources.fileNames output =
      sources.fragments.map fun fragment => output.fileName fragment.name :=
  List.map_map

/-- A name is written exactly if it is the one of a fragment, with the
extension that the settings give to files. -/
theorem mem_fileNames_iff {name : String} :
    name ∈ sources.fileNames output ↔
      ∃ fragment ∈ sources.fragments, output.fileName fragment.name = name := by
  rw [fileNames_eq, List.mem_map]

theorem names_entriesOf (sources : GeneratedSources) (output : OutputSettings) :
    (entriesOf output sources.fragments).map (·.1) = sources.fileNames output := by
  rw [entriesOf, List.map_map, fileNames_eq]
  rfl

/-- The directory is made, the sources are written, and what is left is
removed. -/
theorem writes_iff :
    sources.Writes directory output tree summary after ↔
      ∃ made written between removed, tree.makeDirectories directory = (.ok (), made) ∧
        (sources.fragments.mapM (writeFragment (m := StateM FileTree) directory output)).run made =
          (.ok written, between) ∧
        (removeStale (m := StateM FileTree) directory output (sources.fileNames output)).run
          between = (.ok removed, after) ∧
        summary = { written := written.count true, unchanged := written.count false, removed } := by
  rw [fileNames_eq]
  constructor
  · intro h
    obtain ⟨_, made, hMade, h⟩ := run_bind_ok_iff.mp h
    obtain ⟨written, between, hWritten, h⟩ := run_bind_ok_iff.mp h
    obtain ⟨removed, last, hRemoved, hEnd⟩ := run_bind_ok_iff.mp h
    cases hEnd
    exact ⟨made, written, between, removed, hMade, hWritten, hRemoved, rfl⟩
  · rintro ⟨made, written, between, removed, hMade, hWritten, hRemoved, rfl⟩
    exact run_bind_ok_iff.mpr ⟨(), made, hMade, run_bind_ok_iff.mpr ⟨written, between, hWritten,
      run_bind_ok_iff.mpr ⟨removed, after, hRemoved, rfl⟩⟩⟩

/-- How one directory comes from the other: the files of the sources are
filled, and the files that an earlier generation left are cleared away. -/
structure Brings (sources : GeneratedSources) (directory : String) (output : OutputSettings)
    (place : Node.Place) (removed : List String) (made between after : FileTree) : Prop where
  opens : made.Opens directory place
  fits : ∀ fragment ∈ sources.fragments, Fits directory (output.fileName fragment.name)
  keepsFilled : KeepsDirectories made between
  filled : Changes place made (entriesOf output sources.fragments) between
  distinct : removed.Nodup
  stale : ∀ name, name ∈ removed ↔
    between.GeneratedFile directory output name ∧ name ∉ sources.fileNames output
  cleared : Changes place between (removals removed) after

/-- A run that succeeds is taken apart into its stages: the directory was
made, the files were filled and what was left over is gone. All that follows
is read off these. -/
theorem brings_of_writes (hSources : sources.Proper output)
    (hWrites : sources.Writes directory output tree summary after) :
    ∃ place removed made between, tree.makeDirectories directory = (.ok (), made) ∧
      sources.Brings directory output place removed made between after ∧
      summary.written + summary.unchanged = sources.fragments.length ∧
      summary.removed = removed.length := by
  obtain ⟨made, written, between, count, hMade, hWritten, hRemoved, rfl⟩ := writes_iff.mp hWrites
  have hDirectory : directory ≠ "" := by
    -- Nothing can be listed at the empty path.
    rintro rfl
    obtain ⟨listed, _, hListed, -⟩ := run_bind_ok_iff.mp hRemoved
    cases hListed
  obtain ⟨place, hOpens⟩ := opens_of_makeDirectories (by rw [hMade]) hDirectory
  rw [hMade] at hOpens
  obtain ⟨hLength, hFits, hKeeps, hFilled⟩ := changes_of_writeFragments hOpens
    (fun fragment hFragment => hSources.flat _ (mem_fileNames_iff.mpr ⟨fragment, hFragment, rfl⟩))
    hWritten
  obtain ⟨removed, last, hRun, hDistinct, hStale, hCleared⟩ := changes_of_removeStale
    (hOpens.of_keepsDirectories hKeeps) output (sources.fileNames output)
  cases hRemoved.symm.trans hRun
  refine ⟨place, removed, made, between, hMade,
    ⟨hOpens, hFits, hKeeps, hFilled, hDistinct, hStale, hCleared⟩, ?_, rfl⟩
  rw [List.count_true_add_count_false, hLength]

namespace Brings

variable {removed : List String} {between : FileTree} {fragment : Fragment} {name : String}
  (h : sources.Brings directory output place removed made between after)

include h

/-- Filling files does not move the directory that they stand in, so that
the next file goes to the same place. -/
theorem opensFilled : between.Opens directory place :=
  h.opens.of_keepsDirectories h.keepsFilled

/-- Nothing that is written is removed afterwards, since what is expected is
never stale. -/
theorem not_mem_removed (hMem : name ∈ sources.fileNames output) : name ∉ removed :=
  fun hRemoved => ((h.stale name).mp hRemoved).2 hMem

/-- Each file was filled with its own text, because no other fragment has
its name. -/
theorem occupant?_filled (hDistinct : (sources.fileNames output).Nodup)
    (hFragment : fragment ∈ sources.fragments) :
    between.occupant? (place ++ [output.fileName fragment.name]) =
      some (.file fragment.content.toUTF8) :=
  h.filled.here (by rwa [names_entriesOf]) (List.mem_map_of_mem hFragment)

/-- Removing files leaves every other name in the directory as it was. -/
theorem occupant?_of_not_mem_removed (hName : name ∉ removed) :
    after.occupant? (place ++ [name]) = between.occupant? (place ++ [name]) := by
  refine h.cleared.elsewhere fun other hOther => concat_ne_concat fun hSame => hName ?_
  rwa [names_removals, ← hSame] at hOther

theorem occupant?_of_mem_removed (hName : name ∈ removed) :
    after.occupant? (place ++ [name]) = none := by
  refine h.cleared.here ?_ (List.mem_map_of_mem hName)
  rw [names_removals]
  exact h.distinct

/-- At the end each file of the sources holds the text that was generated
for it. -/
theorem occupant?_file (hDistinct : (sources.fileNames output).Nodup)
    (hFragment : fragment ∈ sources.fragments) :
    after.occupant? (place ++ [output.fileName fragment.name]) =
      some (.file fragment.content.toUTF8) := by
  rw [h.occupant?_of_not_mem_removed
    (h.not_mem_removed (mem_fileNames_iff.mpr ⟨fragment, hFragment, rfl⟩))]
  exact h.occupant?_filled hDistinct hFragment

/-- Nothing but the files of the sources is touched by filling them. -/
theorem occupant?_filled_of_not_mem {other : Node.Place}
    (hOther : ∀ name ∈ sources.fileNames output, other ≠ place ++ [name]) :
    between.occupant? other = made.occupant? other := by
  refine h.filled.elsewhere ?_
  rwa [names_entriesOf]

/-- What was generated before and is not to be written was there at
first. -/
theorem mem_removed_iff : name ∈ removed ↔
    made.GeneratedFile directory output name ∧ name ∉ sources.fileNames output := by
  rw [h.stale, and_congr_left_iff]
  intro hName
  refine generatedFile_congr h.opens h.opensFilled (h.occupant?_filled_of_not_mem ?_)
  exact fun other hOther => concat_ne_concat fun hSame => hName (hSame ▸ hOther)

/-- The directory is still found under its path, so that a second run starts
from the same place. -/
theorem opensAfter : after.Opens directory place := by
  refine h.opensFilled.of_keepsDirectories fun other hOther => ?_
  rw [h.cleared.elsewhere, hOther]
  rw [names_removals]
  rintro name hName rfl
  obtain ⟨⟨-, -, text, hFile, -⟩, -⟩ :=
    ((h.stale name).mp hName).imp_left (generatedFile_iff h.opensFilled).mp
  rw [hFile] at hOther
  cases hOther

/-- No generated file is left but those of the sources. -/
theorem generatedFile_after_iff (hSources : sources.Proper output) :
    after.GeneratedFile directory output name ↔ name ∈ sources.fileNames output := by
  constructor
  · intro hGenerated
    by_contra hName
    by_cases hRemoved : name ∈ removed
    · obtain ⟨-, -, text, hFile, -⟩ := (generatedFile_iff h.opensAfter).mp hGenerated
      rw [h.occupant?_of_mem_removed hRemoved] at hFile
      cases hFile
    · refine hRemoved ((h.stale name).mpr ⟨?_, hName⟩)
      exact (generatedFile_congr h.opensFilled h.opensAfter
        (h.occupant?_of_not_mem_removed hRemoved)).mp hGenerated
  · intro hName
    obtain ⟨fragment, hFragment, rfl⟩ := mem_fileNames_iff.mp hName
    obtain ⟨settings, modules, hGenerate⟩ := hSources.generated
    obtain ⟨g, -, -, rfl⟩ := (Generator.generate_eq_ok_iff modules).mp hGenerate
    refine (generatedFile_iff h.opensAfter).mpr ⟨?_, h.fits fragment hFragment, fragment.content,
      h.occupant?_file hSources.distinct hFragment, g.isMarked_of_mem_emit hFragment⟩
    rw [OutputSettings.fileName, String.toList_append]
    exact List.suffix_append _ _

/-- What is neither a file of the sources nor was generated is as it was. -/
theorem occupant?_foreign {other : Node.Place}
    (hSources : ∀ name ∈ sources.fileNames output, other ≠ place ++ [name])
    (hGenerated : ∀ name, made.GeneratedFile directory output name → other ≠ place ++ [name]) :
    after.occupant? other = made.occupant? other := by
  rw [h.cleared.elsewhere, h.occupant?_filled_of_not_mem hSources]
  rw [names_removals]
  exact fun name hName => hGenerated name (h.mem_removed_iff.mp hName).1

/-- What was written is found unchanged, and there is nothing left to
remove. -/
theorem writes_again (hSources : sources.Proper output) :
    sources.Writes directory output after { unchanged := sources.fragments.length } after := by
  have hOpens := h.opensAfter
  have hFiles : ∀ fragment ∈ sources.fragments, Fits directory (output.fileName fragment.name) ∧
      after.occupant? (place ++ [output.fileName fragment.name]) =
        some (.file fragment.content.toUTF8) := fun fragment hFragment =>
    ⟨h.fits fragment hFragment, h.occupant?_file hSources.distinct hFragment⟩
  obtain ⟨stale, last, hRun, -, hStale, hCleared⟩ :=
    changes_of_removeStale hOpens output (sources.fileNames output)
  have hNone : stale = [] := List.eq_nil_iff_forall_not_mem.mpr fun name hName => by
    obtain ⟨hGenerated, hNew⟩ := (hStale name).mp hName
    exact hNew ((h.generatedFile_after_iff hSources).mp hGenerated)
  rw [hNone] at hRun hCleared
  cases hCleared
  refine writes_iff.mpr ⟨after, _, after, 0, makeDirectories_of_opens hOpens,
    writeFragments_of_files hOpens hFiles, hRun, ?_⟩
  rw [List.count_replicate_self, List.count_replicate]
  rfl

end Brings

/-! ### When a directory can be brought up to date -/

/-- The directory can be made, and there is room in it for each file of the
sources. -/
structure HasRoom (sources : GeneratedSources) (directory : String) (output : OutputSettings)
    (tree : FileTree) : Prop where
  named : directory ≠ ""
  made : (tree.makeDirectories directory).1 = .ok ()
  free : ∀ name ∈ sources.fileNames output, isEntryName name = true ∧ Fits directory name ∧
    (tree.makeDirectories directory).2.kind? (Path.join directory name) ≠ some .directory

/-- A run succeeds exactly if there is room for it, which can be told from
the tree before the run. -/
theorem exists_writes_iff (hSources : sources.Proper output) (tree : FileTree) :
    (∃ summary after, sources.Writes directory output tree summary after) ↔
      sources.HasRoom directory output tree := by
  constructor
  · rintro ⟨summary, after, hWrites⟩
    obtain ⟨place, removed, made, between, hMade, h, -⟩ := brings_of_writes hSources hWrites
    refine ⟨h.opens.ne_empty, by rw [hMade], fun name hMem => ?_⟩
    rw [hMade]
    obtain ⟨fragment, hFragment, rfl⟩ := mem_fileNames_iff.mp hMem
    have hFile := h.occupant?_filled hSources.distinct hFragment
    have hName := isEntryName_of_occupant? (by rw [hFile]; rfl)
    have hFits := h.fits fragment hFragment
    refine ⟨hName, hFits, fun hDirectory => ?_⟩
    rw [h.opens.kind?_join_eq_directory_iff hName hFits] at hDirectory
    rw [h.keepsFilled _ hDirectory] at hFile
    cases hFile
  · rintro ⟨hDirectory, hMade, hNames⟩
    obtain ⟨place, hOpens⟩ := opens_of_makeDirectories hMade hDirectory
    have hReady : ∀ fragment ∈ sources.fragments,
        isEntryName (output.fileName fragment.name) = true ∧
          Fits directory (output.fileName fragment.name) ∧
          (tree.makeDirectories directory).2.occupant?
            (place ++ [output.fileName fragment.name]) ≠ some .directory := by
      intro fragment hFragment
      obtain ⟨hName, hFits, hOther⟩ := hNames _ (mem_fileNames_iff.mpr ⟨fragment, hFragment, rfl⟩)
      exact ⟨hName, hFits, fun hSame =>
        hOther ((hOpens.kind?_join_eq_directory_iff hName hFits).mpr hSame)⟩
    obtain ⟨written, between, hWritten⟩ := exists_writeFragments hOpens hReady
    have hFlat : ∀ fragment ∈ sources.fragments, '/' ∉ (output.fileName fragment.name).toList :=
      fun fragment hFragment => (isEntryName_iff.mp (hReady fragment hFragment).1).2.2.2.1
    obtain ⟨-, -, hKeeps, -⟩ := changes_of_writeFragments hOpens hFlat hWritten
    obtain ⟨removed, after, hRemoved, -⟩ := changes_of_removeStale
      (hOpens.of_keepsDirectories hKeeps) output (sources.fileNames output)
    exact ⟨_, after, writes_iff.mpr
      ⟨_, written, between, _, Prod.ext hMade rfl, hWritten, hRemoved, rfl⟩⟩

end GeneratedSources

/-! ### What generations leave -/

/-- Whatever is neither a file of these sources nor was generated is as it
was. -/
def KeepsForeign (made after : FileTree) (directory : String) (output : OutputSettings)
    (runs : List GeneratedSources) : Prop :=
  ∃ place, made.Opens directory place ∧ after.Opens directory place ∧
    ∀ other, (∀ sources ∈ runs, ∀ name ∈ sources.fileNames output, other ≠ place ++ [name]) →
      (∀ name, made.GeneratedFile directory output name → other ≠ place ++ [name]) →
      after.occupant? other = made.occupant? other

/-- What a generation leaves, given the tree once its directory was made. -/
structure Converged (made after : FileTree) (directory : String) (output : OutputSettings)
    (sources : GeneratedSources) (summary : WriteSummary) : Prop where
  files : ∀ fragment ∈ sources.fragments,
    after.readText (Path.join directory (output.fileName fragment.name)) = .ok fragment.content
  generated : ∀ name,
    after.GeneratedFile directory output name ↔ name ∈ sources.fileNames output
  foreign : KeepsForeign made after directory output [sources]
  counted : summary.written + summary.unchanged = sources.fragments.length
  removed : ∃ removed : List String, removed.Nodup ∧ summary.removed = removed.length ∧
    ∀ name, name ∈ removed ↔
      made.GeneratedFile directory output name ∧ name ∉ sources.fileNames output
  again : sources.Writes directory output after { unchanged := sources.fragments.length } after

/-- Everything that a generation leaves follows from its stages: which files
there are, what they hold, and that doing it again changes nothing. -/
theorem converged_of_writes {sources : GeneratedSources} {directory : String}
    {output : OutputSettings} {tree after : FileTree} {summary : WriteSummary}
    (hSources : sources.Proper output)
    (hWrites : sources.Writes directory output tree summary after) :
    Converged (tree.makeDirectories directory).2 after directory output sources summary := by
  obtain ⟨place, removed, made, between, hMade, h, hCounted, hRemoved⟩ :=
    GeneratedSources.brings_of_writes hSources hWrites
  rw [hMade]
  exact {
    files := fun fragment hFragment =>
      (h.opensAfter.readText_join_ok_iff (hSources.flat _
        (GeneratedSources.mem_fileNames_iff.mpr ⟨fragment, hFragment, rfl⟩))).mpr
          ⟨h.fits fragment hFragment, h.occupant?_file hSources.distinct hFragment⟩
    generated := fun _ => h.generatedFile_after_iff hSources
    foreign := ⟨place, h.opens, h.opensAfter, fun other hOwn hGenerated =>
      h.occupant?_foreign (hOwn sources (List.mem_singleton_self sources)) hGenerated⟩
    counted := hCounted
    removed := ⟨removed, h.distinct, hRemoved, fun _ => h.mem_removed_iff⟩
    again := h.writes_again hSources }

/-- Generations into one directory, one after another, each with sources of
its own. -/
inductive InTurn (directory : String) (output : OutputSettings) (start : FileTree) :
    List GeneratedSources → FileTree → Prop where
  | first {sources : GeneratedSources} {summary : WriteSummary} {after : FileTree}
      (proper : sources.Proper output)
      (writes : sources.Writes directory output start summary after) :
      InTurn directory output start [sources] after
  | next {runs : List GeneratedSources} {tree : FileTree} {sources : GeneratedSources}
      {summary : WriteSummary} {after : FileTree}
      (earlier : InTurn directory output start runs tree)
      (proper : sources.Proper output)
      (writes : sources.Writes directory output tree summary after) :
      InTurn directory output start (runs ++ [sources]) after

namespace InTurn

variable {directory : String} {output : OutputSettings} {start after : FileTree}
  {runs : List GeneratedSources}

/-- Only the last generation shows. -/
theorem generatedFile_iff (h : InTurn directory output start runs after) :
    ∃ last, runs.getLast? = some last ∧
      ∀ name, after.GeneratedFile directory output name ↔ name ∈ last.fileNames output := by
  cases h with
  | @first sources _ _ proper writes =>
      exact ⟨sources, rfl, (converged_of_writes proper writes).generated⟩
  | @next _ _ sources _ _ earlier proper writes =>
      exact ⟨sources, List.getLast?_concat, (converged_of_writes proper writes).generated⟩

/-- What an earlier generation left is one of its own files, so that no
later one touches anything foreign. -/
theorem keepsForeign (h : InTurn directory output start runs after) :
    KeepsForeign (start.makeDirectories directory).2 after directory output runs := by
  induction h with
  | first proper writes => exact (converged_of_writes proper writes).foreign
  | @next runs tree sources summary after earlier proper writes ih =>
      obtain ⟨last, hLast, hGenerated⟩ := earlier.generatedFile_iff
      obtain ⟨place, hOpens, hTree, hBefore⟩ := ih
      have hConverged := converged_of_writes proper writes
      rw [makeDirectories_of_opens hTree] at hConverged
      obtain ⟨same, hSame, hAfter, hLater⟩ := hConverged.foreign
      cases hSame.1.unique hTree.1
      refine ⟨place, hOpens, hAfter, fun other hOwn hOthers => ?_⟩
      rw [hLater other, hBefore other _ hOthers]
      · exact fun sources hRun => hOwn sources (List.mem_append_left _ hRun)
      · exact fun sources hRun => hOwn sources (List.mem_append_right _ hRun)
      · exact fun name hName => hOwn last (List.mem_append_left _ (List.mem_of_getLast? hLast)) name
          ((hGenerated name).mp hName)

end InTurn

/-- A directory can be brought up to date exactly if it can be made and has
room for each file. It then converges: the files of the sources hold what
was generated, they are all that is left of generated files, everything
foreign is as it was, and doing the same again changes nothing. After any
generations in turn only the last one shows, and what was foreign to all of
them is as it was before the first. -/
theorem write_converges (directory : String) (output : OutputSettings) :
    (∀ (tree : FileTree) (sources : GeneratedSources), sources.Proper output →
      ((∃ summary after, sources.Writes directory output tree summary after) ↔
        sources.HasRoom directory output tree) ∧
      ∀ summary after, sources.Writes directory output tree summary after →
        Grown tree (tree.makeDirectories directory).2 ∧
        (tree.kind? directory = some .directory → (tree.makeDirectories directory).2 = tree) ∧
        Converged (tree.makeDirectories directory).2 after directory output sources summary) ∧
    ∀ (start : FileTree) (runs : List GeneratedSources) (after : FileTree),
      InTurn directory output start runs after →
        KeepsForeign (start.makeDirectories directory).2 after directory output runs ∧
        ∃ last, runs.getLast? = some last ∧
          ∀ name, after.GeneratedFile directory output name ↔ name ∈ last.fileNames output := by
  refine ⟨fun tree sources hSources => ⟨GeneratedSources.exists_writes_iff hSources tree,
    fun summary after hWrites => ⟨grown_makeDirectories tree directory, fun hDirectory => ?_,
      converged_of_writes hSources hWrites⟩⟩,
    fun start runs after h => ⟨h.keepsForeign, h.generatedFile_iff⟩⟩
  obtain ⟨place, hOpens⟩ := kind?_eq_directory_iff.mp hDirectory
  rw [makeDirectories_of_opens hOpens]

/-- An earlier source goes and what was written by hand stays. -/
theorem write_converges_over_earlier_source :
    ∃ tree sources summary after,
      ofFiles [("Old.g.cs", "// Generated by tsinterop.\n"), ("Own.g.cs", "// by hand\n")] =
        .ok tree ∧
      generate {} [⟨"clock.d.ts", "clock", "/clock.js", []⟩] = .ok sources ∧ sources.Proper {} ∧
      sources.Writes "." {} tree summary after ∧ InTurn "." {} tree [sources] after ∧
      tree.GeneratedFile "." {} "Old.g.cs" ∧ ¬after.GeneratedFile "." {} "Old.g.cs" ∧
      ¬tree.GeneratedFile "." {} "Own.g.cs" ∧
      after.occupant? ["Own.g.cs"] = tree.occupant? ["Own.g.cs"] ∧
      Converged (tree.makeDirectories ".").2 after "." {} sources summary := by
  have hFiles : (generate {} [⟨"clock.d.ts", "clock", "/clock.js", []⟩]).map (·.fileNames {}) =
      .ok ["TSRuntime.g.cs", "ITSRuntime.g.cs", "ClockModule.g.cs"] := by
    decide +kernel
  have hRead : (FileTree.ofFiles
      [("Old.g.cs", "// Generated by tsinterop.\n"), ("Own.g.cs", "// by hand\n")]).map (fun tree =>
        (tree.listEntries ".", tree.bearsMarker "./Old.g.cs", tree.bearsMarker "./Own.g.cs",
          tree.kind? ".", ["TSRuntime.g.cs", "ITSRuntime.g.cs", "ClockModule.g.cs"].all fun name =>
            isEntryName name && decide (Fits "." name) &&
              tree.kind? (Path.join "." name) == none)) =
      .ok (.ok [("Old.g.cs", .file), ("Own.g.cs", .file)], true, false, some .directory, true) := by
    decide +kernel
  obtain ⟨sources, hSources, hNames⟩ := map_ok hFiles
  obtain ⟨tree, hTree, hRead⟩ := map_ok hRead
  simp only [Prod.mk.injEq, List.all_eq_true, Bool.and_eq_true, decide_eq_true_eq,
    beq_iff_eq] at hRead
  obtain ⟨hListed, hOld, hOwn, hDirectory, hFree⟩ := hRead
  have hProper : sources.Proper {} := by
    refine ⟨⟨_, _, hSources⟩, ?_, ?_⟩ <;> rw [hNames] <;> decide +kernel
  obtain ⟨hAny, hTurns⟩ := write_converges "." {}
  obtain ⟨hWritten, hAfter⟩ := hAny tree sources hProper
  obtain ⟨place, hOpens⟩ := kind?_eq_directory_iff.mp hDirectory
  have hMade := makeDirectories_of_opens hOpens
  obtain ⟨summary, after, hWrites⟩ := hWritten.mpr ⟨by decide, by rw [hMade], fun name hName => by
    obtain ⟨⟨hEntry, hFits⟩, hNothing⟩ := hFree name (hNames ▸ hName)
    rw [hMade, hNothing]
    exact ⟨hEntry, hFits, nofun⟩⟩
  obtain ⟨-, -, hConverged⟩ := hAfter summary after hWrites
  have hInTurn := InTurn.first hProper hWrites
  obtain ⟨hForeign, last, hLast, hGenerated⟩ := hTurns tree [sources] after hInTurn
  obtain rfl : sources = last := Option.some.inj hLast
  have hOwnGenerated : ¬tree.GeneratedFile "." {} "Own.g.cs" := by
    rintro ⟨-, -, -, -, hMarker⟩
    exact absurd (hMarker.symm.trans hOwn) nofun
  have hOwnStays : after.occupant? ["Own.g.cs"] = tree.occupant? ["Own.g.cs"] := by
    rw [hMade] at hForeign
    obtain ⟨same, hSame, -, hOthers⟩ := hForeign
    have hTop : tree.LeadsTo "." [] := ⟨["."], by decide +kernel, rfl⟩
    cases hSame.1.unique hTop
    refine hOthers _ ?_ fun name hName hHere => hOwnGenerated ?_
    · rw [List.forall_mem_singleton, hNames]
      decide
    · rwa [List.singleton_inj.mp hHere]
  refine ⟨tree, sources, summary, after, hTree, hSources, hProper, hWrites, hInTurn,
    ⟨_, hListed, by decide, by decide, hOld⟩, ?_, hOwnGenerated, hOwnStays, hConverged⟩
  rw [hGenerated, hNames]
  decide

end ScriptBindings
