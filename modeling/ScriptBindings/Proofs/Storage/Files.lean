import ScriptBindings.Proofs.Storage.Directories

/-! Files in a directory that a path leads to. The path of a name in the
directory leads to the place below it. Reading, writing and removing a file
concern that place alone. -/
namespace ScriptBindings

open Outcomes
open Node (Entries Place)

/-! ### Paths of names -/

namespace Path

variable {directory name : String} {c : Char}

theorem isAbsolute_of_not_mem (hName : '/' ∉ name.toList) : isAbsolute name = false := by
  rw [isAbsolute, beq_eq_false_iff_ne]
  exact fun hHead => hName (List.mem_of_head? hHead)

/-- A name is joined to a path with one slash between, unless the path has
it already. -/
theorem join_eq (hDirectory : directory ≠ "") (hName : '/' ∉ name.toList) :
    join directory name =
      if directory.toList.getLast? == some '/' then directory ++ name
      else directory ++ "/" ++ name := by
  have hNonempty : (directory == "") = false := beq_false_of_ne hDirectory
  rw [join, isAbsolute_of_not_mem hName, hNonempty, Bool.or_self, if_neg Bool.false_ne_true]

theorem segments_append (path rest : String) :
    segments (path ++ "/" ++ rest) = segments path ++ segments rest := by
  rw [segments, String.toList_append, String.toList_append, List.append_assoc]
  exact (congrArg _ (List.splitOn_append_cons_self _ _)).trans List.map_append

theorem segments_of_not_mem (hName : '/' ∉ name.toList) : segments name = [name] := by
  rw [segments, List.splitOn_eq_singleton hName, List.map_singleton, String.ofList_toList]

/-- A name is one segment more. The directory may have been written with a
slash at its end, which leads nowhere. -/
theorem segments_join (hDirectory : directory ≠ "") (hName : '/' ∉ name.toList) :
    ∃ front, segments (join directory name) = front ++ [name] ∧
      (segments directory = front ∨ segments directory = front ++ [""]) := by
  have hLast := segments_of_not_mem hName
  rw [join_eq hDirectory hName]
  split
  · next hSlash =>
      obtain ⟨chars, hChars⟩ := List.getLast?_eq_some_iff.mp (beq_iff_eq.mp hSlash)
      obtain ⟨front, rfl⟩ : ∃ front, directory = front ++ "/" := by
        refine ⟨String.ofList chars, String.toList_inj.mp ?_⟩
        simp [hChars]
      refine ⟨segments front, by rw [segments_append, hLast], Or.inr ?_⟩
      exact (congrArg segments String.append_empty.symm).trans (segments_append front "")
  · exact ⟨segments directory, by rw [segments_append, hLast], Or.inl rfl⟩

/-- No character is in a joined path that is in neither part, but for the
slash. -/
theorem mem_join (hDirectory : directory ≠ "") (hName : '/' ∉ name.toList)
    (h : c ∈ (join directory name).toList) : c ∈ directory.toList ∨ c = '/' ∨ c ∈ name.toList := by
  rw [join_eq hDirectory hName] at h
  split at h
  · rw [String.toList_append, List.mem_append] at h
    exact h.imp_right Or.inr
  · rw [String.toList_append, String.toList_append, List.mem_append, List.mem_append] at h
    rcases h with (hMem | hSlash) | hMem
    · exact Or.inl hMem
    · exact Or.inr (Or.inl (List.mem_singleton.mp hSlash))
    · exact Or.inr (Or.inr hMem)

theorem join_ne_empty (hDirectory : directory ≠ "") (hName : '/' ∉ name.toList) :
    join directory name ≠ "" := by
  rw [join_eq hDirectory hName]
  split
  · exact fun h => hDirectory (String.append_eq_empty_iff.mp h).1
  · exact fun h => hDirectory (String.append_eq_empty_iff.mp (String.append_eq_empty_iff.mp h).1).1

end Path

/-- What a name has to be for an entry to have it, condition by
condition. -/
theorem isEntryName_iff {name : String} :
    isEntryName name = true ↔ name ≠ "" ∧ name ≠ "." ∧ name ≠ ".." ∧ '/' ∉ name.toList ∧
      '\x00' ∉ name.toList ∧ name.utf8ByteSize ≤ nameLimit := by
  simp [isEntryName, and_assoc]

namespace FileTree

variable {tree after : FileTree} {path directory name text : String} {place target : Place}
  {segments front : List String}

/-- A path can be followed if it is neither empty nor too long, and has no
zero in it. -/
theorem followable_ok_iff :
    followable path = .ok segments ↔
      '\x00' ∉ path.toList ∧ path ≠ "" ∧ path.utf8ByteSize ≤ pathLimit ∧
        segments = Path.segments path := by
  unfold followable
  split
  · next hNul => exact ⟨nofun, fun h => absurd (List.contains_iff_mem.mp hNul) h.1⟩
  · next hNul =>
      split
      · next hEmpty => exact ⟨nofun, fun h => absurd (beq_iff_eq.mp hEmpty) h.2.1⟩
      · next hEmpty =>
          split
          · next hLong => exact ⟨nofun, fun h => absurd hLong (Nat.not_lt.mpr h.2.2.1)⟩
          · next hLong =>
              refine ⟨fun h => ⟨?_, ?_, Nat.not_lt.mp hLong, (Except.ok.inj h).symm⟩,
                fun h => congrArg Except.ok h.2.2.2.symm⟩
              · exact fun hMem => hNul (List.contains_iff_mem.mpr hMem)
              · exact fun hSame => hEmpty (beq_iff_eq.mpr hSame)

/-- The entry that a path names is the last of its segments, if this can be
a name. -/
theorem entryName_ok_iff {otherwise : StorageFault} {found : EntryName} :
    entryName otherwise segments = .ok found ↔ segments.getLast? = some found.1 := by
  unfold entryName
  split
  · next hNone => simp [hNone]
  · next segment hSome =>
      rw [hSome, Option.some_inj]
      constructor
      · intro h
        split at h
        · rw [← Except.ok.inj h]
        · split at h <;> cases h
      · rintro rfl
        exact dif_pos found.2

/-- A name at the end of a path stays when empty segments are dropped
there. -/
theorem dropEmpty_concat (h : name ≠ "") : dropEmpty (front ++ [name]) = front ++ [name] := by
  rw [dropEmpty, List.reverse_append, List.reverse_singleton, List.singleton_append,
    List.dropWhile_cons_of_neg (by simpa using h), List.reverse_cons, List.reverse_reverse]

/-- The parent of a path is resolved by following all segments but the last.
It has to be a directory. -/
theorem resolveParent_ok_iff {entries : Entries} :
    tree.resolveParent path = .ok (place, entries) ↔
      ∃ segments, followable path = .ok segments ∧
        tree.follow (dropEmpty segments).dropLast = .ok place ∧
        tree.nodeAt? place = some (.directory entries) := by
  constructor
  · intro h
    obtain ⟨segments, hSegments, h⟩ := bind_ok h
    obtain ⟨walk, hWalk, h⟩ := bind_ok h
    refine ⟨segments, hSegments, foldlM_start_ok_iff.mp ?_⟩
    split at h
    · next hNode =>
        cases h
        exact ⟨walk, hWalk, rfl, hNode⟩
    · cases h
  · rintro ⟨segments, hSegments, hFollow⟩
    obtain ⟨walk, hWalk, rfl, hNode⟩ := foldlM_start_ok_iff.mpr hFollow
    rw [resolveParent, hSegments, ok_bind, hWalk, ok_bind, hNode]
    rfl

/-- A text can be written exactly if the parent is a directory which has no
directory under the name. The entry is all that changes. -/
theorem writeText_ok_iff :
    tree.writeText path text = .ok after ↔
      ∃ place entries found, tree.resolveParent path = .ok (place, entries) ∧
        targetFile path = .ok found ∧
        (∀ inner, entries.lookup found.1 ≠ some (.directory inner)) ∧
        after = tree.insertAt place found (.file text.toUTF8) (.file text.toUTF8) := by
  constructor
  · intro h
    obtain ⟨⟨place, entries⟩, hParent, h⟩ := bind_ok h
    obtain ⟨found, hTarget, h⟩ := bind_ok h
    refine ⟨place, entries, found, hParent, hTarget, ?_⟩
    split at h
    · cases h
    · next hOther =>
        cases h
        exact ⟨hOther, rfl⟩
  · rintro ⟨place, entries, found, hParent, hTarget, hOther, rfl⟩
    rw [writeText, writeBytes, hParent, ok_bind]
    dsimp only
    rw [hTarget, ok_bind]
    split
    · next inner hInner => exact absurd hInner (hOther inner)
    · rfl

/-! ### Names in an open directory -/

/-- From a directory a step by the name of an entry leads to the entry, if
there is one. -/
theorem step_name (hDirectory : tree.occupant? place = some .directory)
    (hName : isEntryName name = true) :
    tree.step place name = .ok target ↔
      target = place ++ [name] ∧ (tree.occupant? target).isSome := by
  obtain ⟨hEmpty, hDot, hDots, -⟩ := isEntryName_iff.mp hName
  unfold step
  rw [hDirectory]
  dsimp only
  rw [if_neg (by simp [hEmpty, hDot]), if_neg (by simpa using hDots)]
  split
  · next hSome =>
      constructor
      · intro h
        cases h
        exact ⟨rfl, hSome⟩
      · exact fun h => congrArg Except.ok h.1.symm
  · next hNone =>
      constructor
      · exact nofun
      · rintro ⟨rfl, hSome⟩
        exact absurd hSome hNone

/-- Anything but a directory is come to by its name. -/
theorem name_of_step (h : tree.step place name = .ok target)
    (hTarget : tree.occupant? target ≠ some .directory) :
    target = place ++ [name] ∧ (tree.occupant? target).isSome := by
  have hDirectory := directory_of_step_ok h
  unfold step at h
  rw [hDirectory] at h
  dsimp only at h
  split at h
  · cases h
    exact absurd hDirectory hTarget
  · split at h
    · cases h
      -- What lies around a directory is one, and the top lies around itself.
      rcases List.eq_nil_or_concat' place with rfl | ⟨outer, last, rfl⟩
      · exact absurd hDirectory hTarget
      · rw [List.dropLast_concat] at hTarget
        refine absurd (occupant?_of_append (List.cons_ne_nil last []) ?_) hTarget
        rw [hDirectory]
        rfl
    · split at h
      · next hSome =>
          cases h
          exact ⟨rfl, hSome⟩
      · cases h

/-- The path of a name in a directory is no longer than any path may be. -/
def Fits (directory name : String) : Prop :=
  (Path.join directory name).utf8ByteSize ≤ pathLimit

instance (directory name : String) : Decidable (Fits directory name) :=
  Nat.decLe _ _

namespace Opens

variable (h : tree.Opens directory place)

include h

theorem ne_empty : directory ≠ "" := by
  obtain ⟨⟨segments, hSegments, -⟩, -⟩ := h
  exact (followable_ok_iff.mp hSegments).2.1

/-- A slash at the end of the path is of no account. -/
theorem follow_front
    (hFront : Path.segments directory = front ∨ Path.segments directory = front ++ [""]) :
    tree.follow front = .ok place := by
  obtain ⟨⟨segments, hSegments, hFollow⟩, -⟩ := h
  rw [(followable_ok_iff.mp hSegments).2.2.2] at hFollow
  rcases hFront with hFront | hFront
  · rwa [hFront] at hFollow
  · rw [hFront, follow, List.foldlM_append] at hFollow
    obtain ⟨before, hBefore, hLast⟩ := bind_ok hFollow
    rw [List.foldlM_cons] at hLast
    obtain ⟨same, hSame, hEnd⟩ := bind_ok hLast
    cases hEnd
    have hStays : tree.step before "" = .ok before := by
      unfold step
      rw [directory_of_step_ok hSame]
      rfl
    cases hStays.symm.trans hSame
    exact hBefore

theorem followable_join (hName : isEntryName name = true) (hFits : Fits directory name) :
    followable (Path.join directory name) = .ok (Path.segments (Path.join directory name)) := by
  obtain ⟨-, -, -, hSlash, hNul, -⟩ := isEntryName_iff.mp hName
  refine followable_ok_iff.mpr ⟨fun hMem => ?_, Path.join_ne_empty h.ne_empty hSlash, hFits, rfl⟩
  obtain ⟨⟨segments, hSegments, -⟩, -⟩ := h
  obtain ⟨hDirectory, hEmpty, -⟩ := followable_ok_iff.mp hSegments
  rcases Path.mem_join hEmpty hSlash hMem with hMem | hSame | hMem
  · exact hDirectory hMem
  · cases hSame
  · exact hNul hMem

/-- A path that ends in a name is followed to its directory first and then
by the name. -/
theorem follow_join (hFront : Path.segments directory = front ∨
    Path.segments directory = front ++ [""]) (name : String) :
    tree.follow (front ++ [name]) = tree.step place name := by
  have hTo : front.foldlM tree.step [] = .ok place := h.follow_front hFront
  rw [follow, List.foldlM_append, hTo, ok_bind, List.foldlM_cons]
  cases tree.step place name <;> rfl

/-- The path of a name leads one step on from the directory. -/
theorem step_of_leadsTo (hSlash : '/' ∉ name.toList)
    (hLeads : tree.LeadsTo (Path.join directory name) target) :
    Fits directory name ∧ tree.step place name = .ok target := by
  obtain ⟨front, hJoin, hFront⟩ := Path.segments_join h.ne_empty hSlash
  obtain ⟨segments, hSegments, hTo⟩ := hLeads
  obtain ⟨-, -, hFits, rfl⟩ := followable_ok_iff.mp hSegments
  rw [hJoin, h.follow_join hFront] at hTo
  exact ⟨hFits, hTo⟩

/-- The path of an entry leads to the entry, provided that the path is not
too long to be followed. -/
theorem leadsTo_join (hFits : Fits directory name)
    (hSome : (tree.occupant? (place ++ [name])).isSome) :
    tree.LeadsTo (Path.join directory name) (place ++ [name]) := by
  have hName := isEntryName_of_occupant? hSome
  obtain ⟨-, -, -, hSlash, -⟩ := isEntryName_iff.mp hName
  obtain ⟨front, hJoin, hFront⟩ := Path.segments_join h.ne_empty hSlash
  refine ⟨_, h.followable_join hName hFits, ?_⟩
  rw [hJoin, h.follow_join hFront]
  exact (step_name h.2 hName).mpr ⟨rfl, hSome⟩

/-- Whether a name in a directory is that of a directory is seen from its
entry. -/
theorem kind?_join_eq_directory_iff (hName : isEntryName name = true)
    (hFits : Fits directory name) :
    tree.kind? (Path.join directory name) = some .directory ↔
      tree.occupant? (place ++ [name]) = some .directory := by
  obtain ⟨-, -, -, hSlash, -⟩ := isEntryName_iff.mp hName
  rw [kind?_eq_directory_iff]
  constructor
  · rintro ⟨target, hLeads, hDirectory⟩
    obtain ⟨rfl, -⟩ := (step_name h.2 hName).mp (h.step_of_leadsTo hSlash hLeads).2
    exact hDirectory
  · exact fun hDirectory => ⟨_, h.leadsTo_join hFits (by rw [hDirectory]; rfl), hDirectory⟩

/-- A file is read under its path exactly if the path fits and the entry is
the file. -/
theorem readText_join_ok_iff (hSlash : '/' ∉ name.toList) :
    tree.readText (Path.join directory name) = .ok text ↔
      Fits directory name ∧ tree.occupant? (place ++ [name]) = some (.file text.toUTF8) := by
  rw [readText_ok_iff]
  constructor
  · rintro ⟨target, hLeads, hFile⟩
    obtain ⟨hFits, hStep⟩ := h.step_of_leadsTo hSlash hLeads
    obtain ⟨rfl, -⟩ := name_of_step hStep (by rw [hFile]; simp)
    exact ⟨hFits, hFile⟩
  · rintro ⟨hFits, hFile⟩
    exact ⟨_, h.leadsTo_join hFits (by rw [hFile]; rfl), hFile⟩

/-- The directory around a name is the open one, whether or not its path
ends in a slash. -/
theorem resolveParent_join (hName : isEntryName name = true) (hFits : Fits directory name)
    {entries : Entries} (hEntries : tree.nodeAt? place = some (.directory entries)) :
    tree.resolveParent (Path.join directory name) = .ok (place, entries) := by
  obtain ⟨hEmpty, -, -, hSlash, -⟩ := isEntryName_iff.mp hName
  obtain ⟨front, hJoin, hFront⟩ := Path.segments_join h.ne_empty hSlash
  refine resolveParent_ok_iff.mpr ⟨_, h.followable_join hName hFits, ?_, hEntries⟩
  rw [hJoin, dropEmpty_concat hEmpty, List.dropLast_concat]
  exact h.follow_front hFront

/-- The file that is written under a joined path has the name that was
joined. -/
theorem targetFile_join {found : EntryName} (hSlash : '/' ∉ name.toList) :
    targetFile (Path.join directory name) = .ok found ↔ found.1 = name := by
  obtain ⟨front, hJoin, -⟩ := Path.segments_join h.ne_empty hSlash
  rw [targetFile, entryName_ok_iff, hJoin, List.getLast?_concat, Option.some_inj, eq_comm]

/-- Where a file was written, its name is proper, its path is not too long,
and no directory had the name. -/
theorem changed_of_writeText (hSlash : '/' ∉ name.toList)
    (hWrite : tree.writeText (Path.join directory name) text = .ok after) :
    isEntryName name = true ∧ Fits directory name ∧
      tree.occupant? (place ++ [name]) ≠ some .directory ∧
      Changed tree after (place ++ [name]) (some (.file text.toUTF8)) := by
  obtain ⟨parent, entries, found, hParent, hTarget, hOther, rfl⟩ := writeText_ok_iff.mp hWrite
  have hFound := (h.targetFile_join hSlash).mp hTarget
  have hName : isEntryName name = true := hFound ▸ found.2
  have hFits : Fits directory name := by
    obtain ⟨segments, hSegments, -⟩ := resolveParent_ok_iff.mp hParent
    exact (followable_ok_iff.mp hSegments).2.2.1
  obtain ⟨inner, hInner⟩ := occupant?_directory_iff.mp h.2
  cases (h.resolveParent_join hName hFits hInner).symm.trans hParent
  refine ⟨hName, hFits, fun hDirectory => ?_, ?_⟩
  · obtain ⟨below, hBelow⟩ := occupant?_directory_iff.mp hDirectory
    rw [nodeAt?, Node.get?_concat hInner, ← hFound] at hBelow
    exact hOther below hBelow
  · rw [← hFound]
    exact changed_insertAt_file hInner hOther

theorem exists_writeText (hName : isEntryName name = true) (hFits : Fits directory name)
    (hOther : tree.occupant? (place ++ [name]) ≠ some .directory) (text : String) :
    ∃ after, tree.writeText (Path.join directory name) text = .ok after := by
  obtain ⟨-, -, -, hSlash, -⟩ := isEntryName_iff.mp hName
  obtain ⟨entries, hEntries⟩ := occupant?_directory_iff.mp h.2
  refine ⟨_, writeText_ok_iff.mpr ⟨place, entries, ⟨name, hName⟩,
    h.resolveParent_join hName hFits hEntries, (h.targetFile_join hSlash).mpr rfl,
    fun inner hInner => hOther ?_, rfl⟩⟩
  rw [occupant?_concat hEntries, hInner]
  rfl

/-- A file whose path is not too long can be removed. -/
theorem exists_removeFile {content : ByteArray} (hFits : Fits directory name)
    (hFile : tree.occupant? (place ++ [name]) = some (.file content)) :
    ∃ after, tree.removeFile (Path.join directory name) = .ok after ∧
      Changed tree after (place ++ [name]) none := by
  have hName : isEntryName name = true := isEntryName_of_occupant? (by rw [hFile]; rfl)
  obtain ⟨-, -, -, hSlash, -⟩ := isEntryName_iff.mp hName
  obtain ⟨entries, hEntries⟩ := occupant?_directory_iff.mp h.2
  have hTarget : targetFile (Path.join directory name) = .ok ⟨name, hName⟩ :=
    (h.targetFile_join hSlash).mpr rfl
  have hFound := occupant?_file_iff.mp hFile
  rw [nodeAt?, Node.get?_concat hEntries] at hFound
  refine ⟨tree.eraseAt place ⟨name, hName⟩, ?_, changed_eraseAt hEntries hFound⟩
  rw [removeFile, h.resolveParent_join hName hFits hEntries, ok_bind]
  dsimp only
  rw [hTarget, ok_bind, hFound]
  rfl

/-- The names in an open directory, and which of them are files. -/
theorem exists_listEntries :
    ∃ listed, tree.listEntries directory = .ok listed ∧ (listed.map (·.1)).Nodup ∧
      (∀ entry ∈ listed, isEntryName entry.1 = true) ∧
      ∀ name, (name, .file) ∈ listed ↔
        ∃ content, tree.occupant? (place ++ [name]) = some (.file content) := by
  obtain ⟨entries, hEntries⟩ := occupant?_directory_iff.mp h.2
  have hResolve := resolve_ok_iff.mpr ⟨place, h.1, hEntries⟩
  cases wellFormed_of_nodeAt? hEntries with
  | directory sorted named below =>
      refine ⟨entries.map fun entry => (entry.1, entry.2.kind), ?_, ?_, ?_, fun name => ?_⟩
      · rw [listEntries, hResolve]
        rfl
      · rw [List.map_map]
        exact SortedEntries.nodup_of_sorted sorted
      · rw [List.forall_mem_map]
        exact named
      · rw [List.mem_map]
        constructor
        · rintro ⟨⟨found, node⟩, hMem, hSame⟩
          cases node with
          | directory inner => cases hSame
          | file content =>
              cases hSame
              refine ⟨content, ?_⟩
              rw [occupant?_concat hEntries, SortedEntries.lookup_of_mem sorted hMem]
              rfl
        · rintro ⟨content, hFile⟩
          have hFound := occupant?_file_iff.mp hFile
          rw [nodeAt?, Node.get?_concat hEntries] at hFound
          exact ⟨(name, .file content), SortedEntries.mem_of_lookup hFound, rfl⟩

end Opens

end FileTree

end ScriptBindings
