import Mathlib.Data.List.TakeWhile
import ScriptBindings.Discovery
import ScriptBindings.Proofs.Storage.Descent
import ScriptBindings.Proofs.Text.Inclusion

/-! Searching a directory without what is excluded. Where a path is
excluded, so is every path below it, so that a directory can be passed over
without a look at what it contains: what the search comes to is what a
search of everything comes to, less the excluded paths. -/
namespace ScriptBindings

open Node (Entries Place)

/-! ### Excluded paths -/

namespace InputRoot

variable {input : InputRoot} {relative : String} {rest : Place}

/-- An exclude matches whole names from the front of the path. A name that
only begins like the exclude is not matched. -/
theorem isExcluded_iff :
    input.isExcluded relative = true ↔ ∃ exclude ∈ input.excludes,
      Path.segments (Path.dropEndSlashes exclude) <+: Path.segments (Path.slashed relative) := by
  simp only [isExcluded, List.any_eq_true, Bool.or_eq_true, beq_iff_eq,
    List.isPrefixOf_iff_prefix, Path.segments_prefix_iff, Path.slashed, Path.dropEndSlashes,
    String.toList_map, String.toList_ofList]

/-- An excluded path has all that is below it excluded as well, because an
exclude is matched against the front of a path. -/
theorem isExcluded_append (h : input.isExcluded relative = true) (inner : String) :
    input.isExcluded (relative ++ "/" ++ inner) = true := by
  obtain ⟨exclude, hExclude, hPrefix⟩ := isExcluded_iff.mp h
  have hSlashed : Path.slashed (relative ++ "/" ++ inner) =
      Path.slashed relative ++ "/" ++ Path.slashed inner := by
    rw [← String.toList_inj]
    simp [Path.slashed]
  refine isExcluded_iff.mpr ⟨exclude, hExclude, ?_⟩
  rw [hSlashed, Path.segments_append]
  exact hPrefix.trans (List.prefix_append _ _)

/-- So a directory that is excluded may be passed over without a look at
what is in it, however deep. -/
theorem isExcluded_below (h : input.isExcluded relative = true) (hEnd : Path.EndsInName relative)
    (hNames : ∀ name ∈ rest, isEntryName name = true) :
    input.isExcluded (Path.below relative rest) = true := by
  induction rest generalizing relative with
  | nil => exact h
  | cons name later ih =>
      rw [List.forall_mem_cons] at hNames
      refine ih ?_ (Path.endsInName_join relative hNames.1) hNames.2
      rw [hEnd.join_eq hNames.1]
      exact isExcluded_append h name

/-- The directory itself is not excluded by anything but slashes. Otherwise
nothing in it would be searched. -/
theorem isExcluded_empty (h : ∀ exclude ∈ input.excludes, Path.dropEndSlashes exclude ≠ "") :
    input.isExcluded "" = false := by
  rw [Bool.eq_false_iff, Ne, isExcluded_iff]
  rintro ⟨exclude, hExclude, hPrefix⟩
  have hNothing : Path.slashed "" = "" := by simp [Path.slashed]
  rw [hNothing] at hPrefix
  rcases Path.segments_prefix_iff.mp hPrefix with hSame | hBelow
  · exact h exclude hExclude (String.toList_inj.mp hSame).symm
  · exact List.append_ne_nil_of_right_ne_nil _ (List.cons_ne_nil '/' []) (List.prefix_nil.mp hBelow)

end InputRoot

/-! ### Names of declaration modules -/

theorem isDeclaration_iff {path : String} :
    isDeclaration path = true ↔ declarationSuffix.toList <:+ path.toList := by
  rw [isDeclaration, List.isPrefixOf_iff_prefix, List.reverse_prefix]

/-- How a path ends is seen from its last name. -/
theorem isDeclaration_join (base : String) {name : String} (hName : isEntryName name = true) :
    isDeclaration (Path.join base name) = true ↔ declarationSuffix.toList <:+ name.toList := by
  have hSlash : '/' ∉ declarationSuffix.toList := by decide
  rw [isDeclaration_iff]
  obtain ⟨front, hEnd, hJoin⟩ := Path.exists_join_eq base
  rw [hJoin name (Path.not_isAbsolute hName)]
  rcases hEnd with rfl | hEnd
  · rw [String.empty_append]
  · obtain ⟨start, hStart⟩ := List.getLast?_eq_some_iff.mp hEnd
    rw [String.toList_append, hStart, List.append_assoc, List.singleton_append]
    exact Text.suffix_append_cons_iff hSlash

/-! ### The files below a node -/

namespace Node

mutual

/-- The files below a node with their contents, in the order of the
entries. -/
def files : Node → List (Place × ByteArray)
  | .file content => [([], content)]
  | .directory entries => filesAmong entries

def filesAmong : Entries → List (Place × ByteArray)
  | [] => []
  | (name, node) :: rest =>
      node.files.map (fun file => (name :: file.1, file.2)) ++ filesAmong rest

end

variable {node : Node} {entries : Entries} {place : Place} {content : ByteArray}

/-- The files of a directory are those of its entries, each below the name
of its entry. -/
theorem filesAmong_eq (entries : Entries) :
    filesAmong entries =
      entries.flatMap fun entry => entry.2.files.map fun file => (entry.1 :: file.1, file.2) := by
  induction entries with
  | nil => rfl
  | cons entry rest ih => rw [filesAmong, ih, List.flatMap_cons]

theorem listings_eq (path : String) (entries : Entries) :
    listings path entries =
      entries.map fun entry => (entry.1, entry.2.listing (Path.join path entry.1)) := by
  induction entries with
  | nil => rfl
  | cons entry rest ih => rw [listings, ih, List.map_cons]

/-- A file stands below one of the entries, at a place that begins with the
name of this entry. -/
theorem mem_filesAmong_iff :
    (place, content) ∈ filesAmong entries ↔
      ∃ name node rest, (name, node) ∈ entries ∧ place = name :: rest ∧
        (rest, content) ∈ node.files := by
  rw [filesAmong_eq, List.mem_flatMap]
  constructor
  · rintro ⟨⟨name, node⟩, hEntry, hMem⟩
    obtain ⟨file, hFile, hSame⟩ := List.mem_map.mp hMem
    cases hSame
    exact ⟨name, node, file.1, hEntry, rfl, hFile⟩
  · rintro ⟨name, node, rest, hEntry, rfl, hFile⟩
    exact ⟨(name, node), hEntry, List.mem_map_of_mem hFile⟩

/-- At this path no node below has too long a path. -/
def FitsAt (path : String) (node : Node) : Prop :=
  ∀ place, (node.get? place).isSome → (Path.below path place).utf8ByteSize ≤ pathLimit

theorem fitsAt_file_iff {path : String} :
    (Node.file content).FitsAt path ↔ path.utf8ByteSize ≤ pathLimit := by
  constructor
  · exact fun h => h [] rfl
  · intro h place hSome
    cases place with
    | nil => exact h
    | cons name rest => cases hSome

/-- A directory fits at a path if all its entries do at theirs. This is the
form that the induction over a tree needs. -/
theorem fitsAt_directory_iff {path : String} (hSorted : SortedEntries.Sorted entries) :
    (Node.directory entries).FitsAt path ↔ path.utf8ByteSize ≤ pathLimit ∧
      ∀ entry ∈ entries, entry.2.FitsAt (Path.join path entry.1) := by
  constructor
  · refine fun h => ⟨h [] rfl, fun entry hEntry place hSome => h (entry.1 :: place) ?_⟩
    rw [get?, SortedEntries.lookup_of_mem hSorted hEntry]
    exact hSome
  · rintro ⟨hHere, hBelow⟩ place hSome
    cases place with
    | nil => exact hHere
    | cons name rest =>
        obtain ⟨found, hFound⟩ := Option.isSome_iff_exists.mp hSome
        obtain ⟨inner, hLookup, hRest⟩ := Option.bind_eq_some_iff.mp hFound
        exact hBelow (name, inner) (SortedEntries.mem_of_lookup hLookup) rest (by rw [hRest]; rfl)

namespace WellFormed

/-- The files of a node are those that can be found below it. No place holds
two, since the names in a directory differ. -/
theorem mem_files_iff (h : node.WellFormed) :
    (place, content) ∈ node.files ↔ node.get? place = some (.file content) := by
  induction h generalizing place with
  | file other => cases place <;> simp [files, get?, eq_comm]
  | directory sorted named formed ih =>
      rw [files, mem_filesAmong_iff]
      constructor
      · rintro ⟨name, inner, rest, hEntry, rfl, hFile⟩
        exact Option.bind_eq_some_iff.mpr
          ⟨inner, SortedEntries.lookup_of_mem sorted hEntry, (ih _ hEntry).mp hFile⟩
      · intro hFound
        cases place with
        | nil => cases hFound
        | cons name rest =>
            obtain ⟨inner, hLookup, hRest⟩ := Option.bind_eq_some_iff.mp hFound
            have hEntry := SortedEntries.mem_of_lookup hLookup
            exact ⟨name, inner, rest, hEntry, rfl, (ih _ hEntry).mpr hRest⟩

/-- The names on the way to a node are names of entries, so that none of
them is a dot or has a slash in it. -/
theorem isEntryName_of_get? {found : Node} (h : node.WellFormed)
    (hFound : node.get? place = some found) : ∀ name ∈ place, isEntryName name = true := by
  induction place generalizing node with
  | nil => exact List.forall_mem_nil _
  | cons name rest ih =>
      cases h with
      | file content => cases hFound
      | directory sorted named formed =>
          obtain ⟨inner, hLookup, hRest⟩ := Option.bind_eq_some_iff.mp hFound
          have hEntry := SortedEntries.mem_of_lookup hLookup
          exact List.forall_mem_cons.mpr ⟨named (name, inner) hEntry, ih (formed _ hEntry) hRest⟩

/-- Of two files the one comes first whose name is less where their places
part. -/
theorem pairwise_files (h : node.WellFormed) : (node.files.map (·.1)).Pairwise (· < ·) := by
  induction h with
  | file content => exact List.pairwise_singleton _ _
  | directory sorted named formed ih =>
      rw [files, filesAmong_eq, List.map_flatMap, List.pairwise_flatMap]
      constructor
      · intro entry hEntry
        have hInner := ih entry hEntry
        rw [List.pairwise_map] at hInner
        rw [List.map_map, List.pairwise_map]
        exact hInner.imp fun hLess => List.cons_lt_cons_iff.mpr (Or.inr ⟨rfl, hLess⟩)
      · refine sorted.imp fun {first second} hLess place hPlace other hOther => ?_
        obtain ⟨file, hFile, rfl⟩ := List.mem_map.mp hPlace
        obtain ⟨inner, hInner, rfl⟩ := List.mem_map.mp hFile
        obtain ⟨file, hFile, rfl⟩ := List.mem_map.mp hOther
        obtain ⟨inner, hInner, rfl⟩ := List.mem_map.mp hFile
        exact List.cons_lt_cons_iff.mpr (Or.inl hLess)

end WellFormed

end Node

/-! ### The search -/

namespace InputRoot

/-- The search goes through a directory entry by entry, in the order in
which they are listed. -/
theorem declarationsAmong_eq (input : InputRoot) (directory : String)
    (entries : List (String × Listing)) :
    input.declarationsAmong directory entries =
      entries.flatMap fun entry =>
        input.declarationsAt (Path.join directory entry.1) entry.2 := by
  induction entries with
  | nil => rfl
  | cons entry rest ih => rw [declarationsAmong, ih, List.flatMap_cons]

/-- What is passed over with an excluded directory is excluded path by
path. -/
theorem declarationsAt_listing (input : InputRoot) {node : Node} {relative path : String}
    (hNode : node.WellFormed) (hFits : node.FitsAt path)
    (hRelative : input.isExcluded relative = true → Path.EndsInName relative) :
    input.declarationsAt relative (node.listing path) =
      (node.files.map fun file => Path.below relative file.1).filter fun found =>
        !input.isExcluded found && isDeclaration found := by
  induction hNode generalizing relative path with
  | file content => simp [Node.listing, Node.files, declarationsAt, Path.below, List.filter_cons]
  | @directory entries sorted named formed ih =>
      have hNode : (Node.directory entries).WellFormed := .directory sorted named formed
      obtain ⟨hHere, hBelow⟩ := (Node.fitsAt_directory_iff sorted).mp hFits
      rw [Node.listing, if_neg (Nat.not_lt.mpr hHere), declarationsAt, Node.files]
      split
      · next hExcluded =>
          -- Nothing below is looked at, and every path below is excluded.
          refine (List.filter_eq_nil_iff.mpr fun found hFound => ?_).symm
          obtain ⟨file, hFile, rfl⟩ := List.mem_map.mp hFound
          have hNames := hNode.isEntryName_of_get? (hNode.mem_files_iff.mp hFile)
          rw [isExcluded_below hExcluded (hRelative hExcluded) hNames]
          exact Bool.false_ne_true
      · rw [declarationsAmong_eq, Node.listings_eq, List.flatMap_map, Node.filesAmong_eq,
          List.map_flatMap, List.filter_flatMap]
        refine List.flatMap_congr fun entry hEntry => ?_
        rw [List.map_map]
        exact ih entry hEntry (hBelow entry hEntry) fun _ =>
          Path.endsInName_join relative (named entry hEntry)

end InputRoot

end ScriptBindings
