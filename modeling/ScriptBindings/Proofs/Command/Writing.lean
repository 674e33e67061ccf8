import Mathlib.Data.List.Infix
import ScriptBindings.Command.Output
import ScriptBindings.Proofs.Storage.Making
import ScriptBindings.Proofs.Storage.ReadOnly

/-! Writing into an open directory. Each source changes the entry of its own
file only, and each file that is removed is an entry of its own, so that
both loops are changes of entries, one after another. A source whose file is
as it should be changes nothing at all. -/
namespace ScriptBindings

open Outcomes

section Runs

variable {σ ε α β : Type} {x : ExceptT ε (StateM σ) α} {s after : σ}

theorem toOption_eq_some_iff {result : Except ε α} {a : α} :
    result.toOption = some a ↔ result = .ok a := by
  cases result <;> simp [Except.toOption]

/-- A sequence that succeeds goes by way of a state in between. This takes
the commands apart into their steps. -/
theorem run_bind_ok_iff {next : α → ExceptT ε (StateM σ) β} {b : β} :
    (x >>= next).run s = (.ok b, after) ↔
      ∃ a between, x.run s = (.ok a, between) ∧ (next a).run between = (.ok b, after) := by
  rw [ExceptT.run_bind, bind_apply]
  rcases x.run s with ⟨result, between⟩
  cases result with
  | error fault =>
      constructor
      · intro h
        cases h
      · rintro ⟨a, other, hFirst, -⟩
        cases hFirst
  | ok a =>
      constructor
      · exact fun h => ⟨a, between, rfl, h⟩
      · rintro ⟨_, _, hFirst, hNext⟩
        cases hFirst
        exact hNext

/-- A run over a list that succeeds did so for the first item, and from the
state which that left for the others. -/
theorem run_mapM_cons_ok_iff {f : α → ExceptT ε (StateM σ) β} {a : α} {rest : List α}
    {results : List β} :
    ((a :: rest).mapM f).run s = (.ok results, after) ↔
      ∃ first later between, results = first :: later ∧ (f a).run s = (.ok first, between) ∧
        (rest.mapM f).run between = (.ok later, after) := by
  rw [List.mapM_cons, run_bind_ok_iff]
  constructor
  · rintro ⟨first, between, hFirst, hNext⟩
    obtain ⟨later, last, hLater, hEnd⟩ := run_bind_ok_iff.mp hNext
    cases hEnd
    exact ⟨first, later, between, rfl, hFirst, hLater⟩
  · rintro ⟨first, later, between, rfl, hFirst, hLater⟩
    exact ⟨first, between, hFirst, run_bind_ok_iff.mpr ⟨later, after, hLater, rfl⟩⟩

end Runs

namespace FileTree

variable {tree before after : FileTree} {directory name : String} {place : Node.Place}
  {output : OutputSettings} {fragment : Fragment} {fragments : List Fragment}

/-- Changing one name in a directory leaves the directory where it was,
unless the name was that of a directory itself. -/
theorem Changed.opens {now : Option Occupant}
    (hChanged : Changed before after (place ++ [name]) now)
    (hWas : before.occupant? (place ++ [name]) ≠ some .directory)
    (h : before.Opens directory place) : after.Opens directory place :=
  h.of_keepsDirectories (hChanged.keepsDirectories (Or.inl hWas))

/-- What a change comes to once it is tried. -/
theorem run_commit_bind {α : Type} (change : FileTree → Except StorageFault FileTree)
    (next : Unit → ExceptT StorageFault (StateM FileTree) α) (tree : FileTree) :
    (ExceptT.mk (commit change) >>= next).run tree =
      match change tree with
      | .ok after => (next ()).run after
      | .error fault => (.error fault, tree) := by
  have hRun : commit change tree =
      match change tree with
      | .ok after => (.ok (), after)
      | .error fault => (.error fault, tree) := rfl
  rw [ExceptT.run_bind, bind_apply, ExceptT.run_mk, hRun]
  cases change tree <;> rfl

/-! ### Writing the sources -/

/-- Writing a fragment compares the file with its text first, so that a file
which holds the text already is not written. -/
theorem run_writeFragment (tree : FileTree) (directory : String) (output : OutputSettings)
    (fragment : Fragment) :
    (writeFragment (m := StateM FileTree) directory output fragment).run tree =
      if (tree.readText (Path.join directory (output.fileName fragment.name))).toOption ==
          some fragment.content then (.ok false, tree)
      else
        match tree.writeText (Path.join directory (output.fileName fragment.name))
          fragment.content with
        | .ok after => (.ok true, after)
        | .error fault => (.error fault, tree) := by
  change (if _ then _ else _ : ExceptT StorageFault (StateM FileTree) Bool).run tree = _
  split
  · rfl
  · exact run_commit_bind _ _ tree

/-- What is written is not told from what was there already. -/
theorem changed_of_writeFragment {written : Bool} (h : tree.Opens directory place)
    (hSlash : '/' ∉ (output.fileName fragment.name).toList)
    (hRun : (writeFragment (m := StateM FileTree) directory output fragment).run tree =
      (.ok written, after)) :
    Fits directory (output.fileName fragment.name) ∧
      tree.occupant? (place ++ [output.fileName fragment.name]) ≠ some .directory ∧
      Changed tree after (place ++ [output.fileName fragment.name])
        (some (.file fragment.content.toUTF8)) := by
  rw [run_writeFragment] at hRun
  split at hRun
  · next hSame =>
      cases hRun
      have hRead := toOption_eq_some_iff.mp (beq_iff_eq.mp hSame)
      obtain ⟨hFits, hFile⟩ := (h.readText_join_ok_iff hSlash).mp hRead
      exact ⟨hFits, by rw [hFile]; simp, hFile, fun _ _ => rfl⟩
  · split at hRun
    · next hWrite =>
        cases hRun
        exact (h.changed_of_writeText hSlash hWrite).2
    · cases hRun

/-- Writing succeeds wherever the name can be one of an entry, fits its
directory and is not taken by a directory. What changes is this one
entry. -/
theorem exists_writeFragment (h : tree.Opens directory place)
    (hName : isEntryName (output.fileName fragment.name) = true)
    (hFits : Fits directory (output.fileName fragment.name))
    (hOther : tree.occupant? (place ++ [output.fileName fragment.name]) ≠ some .directory) :
    ∃ written after, (writeFragment (m := StateM FileTree) directory output fragment).run tree =
      (.ok written, after) := by
  obtain ⟨after, hWrite⟩ := h.exists_writeText hName hFits hOther fragment.content
  rw [run_writeFragment]
  split
  · exact ⟨false, tree, rfl⟩
  · exact ⟨true, after, by rw [hWrite]⟩

/-- A file with the right text is left alone and counted as unchanged. -/
theorem writeFragment_of_file (h : tree.Opens directory place)
    (hFits : Fits directory (output.fileName fragment.name))
    (hFile : tree.occupant? (place ++ [output.fileName fragment.name]) =
      some (.file fragment.content.toUTF8)) :
    (writeFragment (m := StateM FileTree) directory output fragment).run tree =
      (.ok false, tree) := by
  have hName : isEntryName (output.fileName fragment.name) = true :=
    isEntryName_of_occupant? (by rw [hFile]; rfl)
  obtain ⟨-, -, -, hSlash, -⟩ := isEntryName_iff.mp hName
  rw [run_writeFragment, (h.readText_join_ok_iff hSlash).mpr ⟨hFits, hFile⟩]
  exact if_pos (beq_self_eq_true _)

/-- The entries that the sources make. -/
def entriesOf (output : OutputSettings) (fragments : List Fragment) :
    List (String × Option Occupant) :=
  fragments.map fun fragment =>
    (output.fileName fragment.name, some (.file fragment.content.toUTF8))

/-- The writes that succeeded have each put their text in place, one after
the other. -/
theorem changes_of_writeFragments {written : List Bool} (h : tree.Opens directory place)
    (hSlash : ∀ fragment ∈ fragments, '/' ∉ (output.fileName fragment.name).toList)
    (hRun : (fragments.mapM (writeFragment (m := StateM FileTree) directory output)).run tree =
      (.ok written, after)) :
    written.length = fragments.length ∧
      (∀ fragment ∈ fragments, Fits directory (output.fileName fragment.name)) ∧
      KeepsDirectories tree after ∧ Changes place tree (entriesOf output fragments) after := by
  induction fragments generalizing tree written with
  | nil =>
      cases hRun
      exact ⟨rfl, nofun, .refl _, .none _⟩
  | cons fragment rest ih =>
      obtain ⟨hHead, hTail⟩ := List.forall_mem_cons.mp hSlash
      obtain ⟨first, later, between, rfl, hFirst, hLater⟩ := run_mapM_cons_ok_iff.mp hRun
      obtain ⟨hFits, hWas, hChanged⟩ := changed_of_writeFragment h hHead hFirst
      obtain ⟨hLength, hAll, hKeeps, hChanges⟩ := ih (hChanged.opens hWas h) hTail hLater
      exact ⟨congrArg (· + 1) hLength, List.forall_mem_cons.mpr ⟨hFits, hAll⟩,
        (hChanged.keepsDirectories (Or.inl hWas)).trans hKeeps, .next hChanged hChanges⟩

/-- Where every file is ready to be written, all of them are. -/
theorem exists_writeFragments (h : tree.Opens directory place)
    (hReady : ∀ fragment ∈ fragments, isEntryName (output.fileName fragment.name) = true ∧
      Fits directory (output.fileName fragment.name) ∧
      tree.occupant? (place ++ [output.fileName fragment.name]) ≠ some .directory) :
    ∃ written after,
      (fragments.mapM (writeFragment (m := StateM FileTree) directory output)).run tree =
        (.ok written, after) := by
  induction fragments generalizing tree with
  | nil => exact ⟨[], tree, rfl⟩
  | cons fragment rest ih =>
      obtain ⟨⟨hName, hFits, hWas⟩, hRest⟩ := List.forall_mem_cons.mp hReady
      obtain ⟨first, between, hFirst⟩ := exists_writeFragment h hName hFits hWas
      obtain ⟨-, -, -, hSlash, -⟩ := isEntryName_iff.mp hName
      obtain ⟨-, -, hChanged⟩ := changed_of_writeFragment h hSlash hFirst
      obtain ⟨later, after, hLater⟩ := ih (hChanged.opens hWas h) fun other hOther => by
        obtain ⟨hName, hFits, hWas⟩ := hRest other hOther
        refine ⟨hName, hFits, ?_⟩
        by_cases hSame : output.fileName other.name = output.fileName fragment.name
        · rw [hSame, hChanged.here]
          simp
        · rwa [hChanged.elsewhere _ (concat_ne_concat hSame)]
      exact ⟨first :: later, after,
        run_mapM_cons_ok_iff.mpr ⟨first, later, between, rfl, hFirst, hLater⟩⟩

/-- Sources whose files are as they should be are not written again. -/
theorem writeFragments_of_files (h : tree.Opens directory place)
    (hFiles : ∀ fragment ∈ fragments, Fits directory (output.fileName fragment.name) ∧
      tree.occupant? (place ++ [output.fileName fragment.name]) =
        some (.file fragment.content.toUTF8)) :
    (fragments.mapM (writeFragment (m := StateM FileTree) directory output)).run tree =
      (.ok (List.replicate fragments.length false), tree) := by
  induction fragments with
  | nil => rfl
  | cons fragment rest ih =>
      obtain ⟨⟨hFits, hFile⟩, hRest⟩ := List.forall_mem_cons.mp hFiles
      exact run_mapM_cons_ok_iff.mpr
        ⟨false, _, tree, rfl, writeFragment_of_file h hFits hFile, ih hRest⟩

/-! ### Removing what is left -/

/-- The entries of these names, once they are removed. -/
def removals (names : List String) : List (String × Option Occupant) :=
  names.map fun name => (name, none)

theorem names_removals (names : List String) : (removals names).map (·.1) = names := by
  rw [removals, List.map_map]
  exact List.map_id names

/-- Whether a path leads to a text with the marker. -/
def bearsMarker (tree : FileTree) (path : String) : Bool :=
  (tree.readText path).toOption.any isMarked

/-- Only a file that bears the marker is removed, and others are passed over
without a fault. -/
theorem run_removeMarked (tree : FileTree) (path : String) :
    (removeMarked (m := StateM FileTree) path).run tree =
      if tree.bearsMarker path then
        match tree.removeFile path with
        | .ok after => (.ok true, after)
        | .error fault => (.error fault, tree)
      else (.ok false, tree) := by
  change (if !tree.bearsMarker path then _ else _ :
    ExceptT StorageFault (StateM FileTree) Bool).run tree = _
  cases tree.bearsMarker path with
  | false => rfl
  | true => exact run_commit_bind _ _ tree

/-- Whether a file bears the marker is a matter of its text in the
directory, if its path fits there at all. -/
theorem bearsMarker_join_iff (h : tree.Opens directory place) (hSlash : '/' ∉ name.toList) :
    tree.bearsMarker (Path.join directory name) = true ↔
      Fits directory name ∧ ∃ text : String,
        tree.occupant? (place ++ [name]) = some (.file text.toUTF8) ∧ isMarked text = true := by
  rw [bearsMarker, Option.any_eq_true]
  constructor
  · rintro ⟨text, hText, hMarked⟩
    obtain ⟨hFits, hFile⟩ :=
      (h.readText_join_ok_iff hSlash).mp (toOption_eq_some_iff.mp hText)
    exact ⟨hFits, text, hFile, hMarked⟩
  · rintro ⟨hFits, text, hFile, hMarked⟩
    rw [(h.readText_join_ok_iff hSlash).mpr ⟨hFits, hFile⟩]
    exact ⟨text, rfl, hMarked⟩

/-- A file without the marker stays, and nothing is counted for it. -/
theorem removeMarked_of_not_bearsMarker {path : String} (h : tree.bearsMarker path = false) :
    (removeMarked (m := StateM FileTree) path).run tree = (.ok false, tree) := by
  rw [run_removeMarked, h]
  rfl

/-- A file with the marker can be removed. What changes is this one
entry. -/
theorem exists_removeMarked (h : tree.Opens directory place) (hSlash : '/' ∉ name.toList)
    (hMarker : tree.bearsMarker (Path.join directory name) = true) :
    ∃ after, (removeMarked (m := StateM FileTree) (Path.join directory name)).run tree =
        (.ok true, after) ∧
      Changed tree after (place ++ [name]) none ∧ after.Opens directory place := by
  obtain ⟨hFits, text, hFile, -⟩ := (bearsMarker_join_iff h hSlash).mp hMarker
  obtain ⟨after, hRemove, hChanged⟩ := h.exists_removeFile hFits hFile
  refine ⟨after, ?_, hChanged, hChanged.opens (by rw [hFile]; simp) h⟩
  rw [run_removeMarked, hMarker, hRemove]
  rfl

/-- The names of the entries whose texts bear the marker. -/
def markedNames (tree : FileTree) (directory : String) (entries : List (String × EntryKind)) :
    List String :=
  (entries.filter fun entry => tree.bearsMarker (Path.join directory entry.1)).map (·.1)

/-- The number of files removed is that of the names which bear the
marker. -/
theorem length_markedNames (tree : FileTree) (directory : String)
    (entries : List (String × EntryKind)) :
    (tree.markedNames directory entries).length =
      (entries.map fun entry => tree.bearsMarker (Path.join directory entry.1)).count true := by
  rw [markedNames, List.length_map, List.count, List.countP_map, List.countP_eq_length_filter]
  exact congrArg List.length (List.filter_congr fun _ _ => (beq_true _).symm)

/-- Of the entries, those with the marker are removed. What happens to one
is of no account for the marker of another. -/
theorem changes_of_removeMarked {entries : List (String × EntryKind)}
    (h : tree.Opens directory place) (hNodup : (entries.map (·.1)).Nodup)
    (hSlash : ∀ entry ∈ entries, '/' ∉ entry.1.toList) :
    ∃ after, (entries.mapM fun entry =>
        removeMarked (m := StateM FileTree) (Path.join directory entry.1)).run tree =
          (.ok (entries.map fun entry => tree.bearsMarker (Path.join directory entry.1)), after) ∧
      Changes place tree (removals (tree.markedNames directory entries)) after := by
  induction entries generalizing tree with
  | nil => exact ⟨tree, rfl, .none tree⟩
  | cons entry rest ih =>
      rw [List.map_cons, List.nodup_cons] at hNodup
      obtain ⟨hHead, hTail⟩ := List.forall_mem_cons.mp hSlash
      rw [List.map_cons, markedNames, List.filter_cons]
      cases hMarker : tree.bearsMarker (Path.join directory entry.1) with
      | false =>
          obtain ⟨after, hRest, hChanges⟩ := ih h hNodup.2 hTail
          exact ⟨after, run_mapM_cons_ok_iff.mpr
            ⟨_, _, tree, rfl, removeMarked_of_not_bearsMarker hMarker, hRest⟩, hChanges⟩
      | true =>
          obtain ⟨between, hGone, hChanged, hOpens⟩ := exists_removeMarked h hHead hMarker
          have hSame : ∀ other ∈ rest, between.bearsMarker (Path.join directory other.1) =
              tree.bearsMarker (Path.join directory other.1) := by
            intro other hOther
            have hName : other.1 ≠ entry.1 := fun hSame =>
              hNodup.1 (hSame ▸ List.mem_map_of_mem hOther)
            rw [Bool.eq_iff_iff, bearsMarker_join_iff hOpens (hTail other hOther),
              bearsMarker_join_iff h (hTail other hOther),
              hChanged.elsewhere _ (concat_ne_concat hName)]
          obtain ⟨after, hRest, hChanges⟩ := ih hOpens hNodup.2 hTail
          rw [List.map_congr_left hSame] at hRest
          rw [markedNames, List.filter_congr hSame] at hChanges
          exact ⟨after, run_mapM_cons_ok_iff.mpr ⟨_, _, between, rfl, hGone, hRest⟩,
            .next hChanged hChanges⟩

/-- A file of a directory that a generation could have left: its name ends
as the sources' do, and its text bears the marker. -/
def GeneratedFile (tree : FileTree) (directory : String) (output : OutputSettings)
    (name : String) : Prop :=
  ∃ listed, tree.listEntries directory = .ok listed ∧ (name, .file) ∈ listed ∧
    output.fileExtension.toList <:+ name.toList ∧
    tree.bearsMarker (Path.join directory name) = true

/-- What counts as a generated file, in terms of the entry that has its
name. -/
theorem generatedFile_iff (h : tree.Opens directory place) :
    tree.GeneratedFile directory output name ↔
      output.fileExtension.toList <:+ name.toList ∧ Fits directory name ∧ ∃ text : String,
        tree.occupant? (place ++ [name]) = some (.file text.toUTF8) ∧ isMarked text = true := by
  obtain ⟨listed, hListed, -, -, hFiles⟩ := h.exists_listEntries
  constructor
  · rintro ⟨same, hSame, hMem, hEnding, hMarker⟩
    cases hListed.symm.trans hSame
    obtain ⟨content, hFile⟩ := (hFiles name).mp hMem
    have hName : isEntryName name = true := isEntryName_of_occupant? (by rw [hFile]; rfl)
    obtain ⟨-, -, -, hSlash, -⟩ := isEntryName_iff.mp hName
    exact ⟨hEnding, (bearsMarker_join_iff h hSlash).mp hMarker⟩
  · rintro ⟨hEnding, hFits, text, hFile, hMarked⟩
    have hName : isEntryName name = true := isEntryName_of_occupant? (by rw [hFile]; rfl)
    obtain ⟨-, -, -, hSlash, -⟩ := isEntryName_iff.mp hName
    exact ⟨listed, hListed, (hFiles name).mpr ⟨_, hFile⟩, hEnding,
      (bearsMarker_join_iff h hSlash).mpr ⟨hFits, text, hFile, hMarked⟩⟩

/-- Whether a file is generated depends on its own entry alone. -/
theorem generatedFile_congr (h : before.Opens directory place)
    (hAfter : after.Opens directory place)
    (hSame : after.occupant? (place ++ [name]) = before.occupant? (place ++ [name])) :
    after.GeneratedFile directory output name ↔ before.GeneratedFile directory output name := by
  rw [generatedFile_iff h, generatedFile_iff hAfter, hSame]

/-- Stale are the names with the extension of generated files that are not
expected. -/
theorem isStaleName_iff {expected : List String} :
    output.isStaleName expected name = true ↔
      output.fileExtension.toList <:+ name.toList ∧ name ∉ expected := by
  rw [OutputSettings.isStaleName, Bool.and_eq_true, List.isPrefixOf_iff_prefix, List.reverse_prefix,
    Bool.not_eq_true', List.contains_eq_mem, decide_eq_false_iff_not]

/-- The files of a listing that an earlier generation could have left,
judged by their names. -/
def staleEntries (output : OutputSettings) (expected : List String)
    (listed : List (String × EntryKind)) : List (String × EntryKind) :=
  listed.filter fun entry => entry.2 == .file && output.isStaleName expected entry.1

/-- The stale files to be removed are those that an earlier generation left
and that are not expected now. -/
theorem mem_markedNames_staleEntries_iff {expected : List String}
    {listed : List (String × EntryKind)} (hListed : tree.listEntries directory = .ok listed) :
    name ∈ tree.markedNames directory (staleEntries output expected listed) ↔
      tree.GeneratedFile directory output name ∧ name ∉ expected := by
  simp only [markedNames, staleEntries, List.mem_map, List.mem_filter, Bool.and_eq_true, beq_iff_eq,
    isStaleName_iff]
  constructor
  · rintro ⟨⟨found, kind⟩, ⟨⟨hEntry, rfl, hEnding, hNew⟩, hMarker⟩, rfl⟩
    exact ⟨⟨listed, hListed, hEntry, hEnding, hMarker⟩, hNew⟩
  · rintro ⟨⟨same, hSame, hEntry, hEnding, hMarker⟩, hNew⟩
    cases hListed.symm.trans hSame
    exact ⟨(name, .file), ⟨⟨hEntry, rfl, hEnding, hNew⟩, hMarker⟩, rfl⟩

/-- What is removed are the generated files that are not expected. Files
without the marker stay, even if they have the name of one. -/
theorem changes_of_removeStale (h : tree.Opens directory place) (output : OutputSettings)
    (expected : List String) :
    ∃ (removed : List String) (after : FileTree),
      (removeStale (m := StateM FileTree) directory output expected).run tree =
        (.ok removed.length, after) ∧
      removed.Nodup ∧
      (∀ name, name ∈ removed ↔ tree.GeneratedFile directory output name ∧ name ∉ expected) ∧
      Changes place tree (removals removed) after := by
  obtain ⟨listed, hListed, hNodup, hNamed, -⟩ := h.exists_listEntries
  have hNames : ((staleEntries output expected listed).map (·.1)).Nodup :=
    hNodup.sublist (List.filter_sublist.map _)
  have hSlash : ∀ entry ∈ staleEntries output expected listed, '/' ∉ entry.1.toList :=
    fun entry hEntry =>
      (isEntryName_iff.mp (hNamed entry (List.mem_of_mem_filter hEntry))).2.2.2.1
  obtain ⟨after, hRun, hChanges⟩ := changes_of_removeMarked h hNames hSlash
  refine ⟨tree.markedNames directory (staleEntries output expected listed), after, ?_,
    hNames.sublist (List.filter_sublist.map _), fun name =>
      mem_markedNames_staleEntries_iff hListed, hChanges⟩
  rw [length_markedNames]
  exact run_bind_ok_iff.mpr ⟨listed, tree, by rw [← hListed]; rfl,
    run_bind_ok_iff.mpr ⟨_, after, hRun, rfl⟩⟩

end FileTree

end ScriptBindings
