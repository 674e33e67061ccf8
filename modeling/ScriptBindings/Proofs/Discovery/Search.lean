import ScriptBindings.Proofs.Discovery.Pruning
import ScriptBindings.Proofs.Storage.ReadOnly

/-! What the search for declaration modules finds. Of the files below the
directory of an input it finds those that are named like declaration modules
and are not excluded, each once and in the order of their places. Inputs are
searched one after another. -/
namespace ScriptBindings

open Node (Place)
open FileTree Outcomes

/-! ### What an input asks for -/

/-- A file at this place below the directory of the input is to be found:
its name is that of a declaration module, and its path is not excluded. -/
structure InputRoot.Wants (input : InputRoot) (place : Place) : Prop where
  named : ∃ name, place.getLast? = some name ∧ declarationSuffix.toList <:+ name.toList
  kept : input.isExcluded (Path.ofPlace place) = false

/-- The input without its excludes. -/
def InputRoot.unrestricted (input : InputRoot) : InputRoot :=
  { input with excludes := [] }

namespace FileTree

/-- The input leads to a directory that can be searched: every exclude has
something in front of the slashes at its end, no path below the directory is
too long, and what is to be found is text. -/
structure Searchable (tree : FileTree) (base : String) (input : InputRoot) (place : Place) :
    Prop where
  opens : tree.Opens (Path.join base input.location) place
  excludes : ∀ exclude ∈ input.excludes, Path.dropEndSlashes exclude ≠ ""
  fits : ∀ rest, (tree.occupant? (place ++ rest)).isSome →
    (Path.below (Path.join base input.location) rest).utf8ByteSize ≤ pathLimit
  readable : ∀ rest content, tree.occupant? (place ++ rest) = some (.file content) →
    input.Wants rest → ∃ text : String, content = text.toUTF8

/-- Exactly the wanted files below a directory, with their texts. They are
in the order of a walk that goes into each directory where its name stands
among the names around it: of two places the one comes first whose name is
less where they part. -/
structure Finds (tree : FileTree) (input : InputRoot) (place : Place)
    (found : List (Place × String)) : Prop where
  mem_iff : ∀ rest text, (rest, text) ∈ found ↔
    tree.occupant? (place ++ rest) = some (.file text.toUTF8) ∧ input.Wants rest
  ordered : (found.map (·.1)).Pairwise (· < ·)

end FileTree

/-! ### What is found below a node -/

/-- The text of a file. -/
def fileText (content : ByteArray) : String :=
  (String.fromUTF8? content).getD ""

/-- The text of a file that was written from a text is this text. -/
theorem fileText_toUTF8 (text : String) : fileText text.toUTF8 = text := by
  rw [fileText, fromUTF8?_eq_some_iff.mpr rfl]
  rfl

/-- Whether a path is one of a declaration module is told by its last name
alone. -/
theorem isDeclaration_ofPlace {place : Place} (hNames : ∀ name ∈ place, isEntryName name = true) :
    isDeclaration (Path.ofPlace place) = true ↔
      ∃ name, place.getLast? = some name ∧ declarationSuffix.toList <:+ name.toList := by
  rcases List.eq_nil_or_concat' place with rfl | ⟨front, name, rfl⟩
  · simp [Path.ofPlace, isDeclaration, declarationSuffix]
  · have hName := hNames name (List.mem_append_right front List.mem_cons_self)
    rw [← Path.below_empty hNames, Path.below_concat, isDeclaration_join _ hName,
      List.getLast?_concat]
    simp

namespace InputRoot

variable {input : InputRoot} {node : Node} {place : Place} {path text : String}

def isWanted (input : InputRoot) (place : Place) : Bool :=
  !input.isExcluded (Path.ofPlace place) && isDeclaration (Path.ofPlace place)

/-- The test that the search makes agrees with what an input wants. -/
theorem isWanted_iff (hNames : ∀ name ∈ place, isEntryName name = true) :
    input.isWanted place = true ↔ input.Wants place := by
  rw [isWanted, Bool.and_eq_true, Bool.not_eq_true', isDeclaration_ofPlace hNames]
  exact ⟨fun h => ⟨h.2, h.1⟩, fun h => ⟨h.kept, h.named⟩⟩

/-- The wanted files below a node. -/
def modulesBelow (input : InputRoot) (node : Node) : List (Place × ByteArray) :=
  node.files.filter fun file => input.isWanted file.1

/-- What the search finds below a node are the files there that the input
wants, and no others. -/
theorem mem_modulesBelow_iff (hNode : node.WellFormed) {content : ByteArray} :
    (place, content) ∈ input.modulesBelow node ↔
      node.get? place = some (.file content) ∧ input.Wants place := by
  rw [modulesBelow, List.mem_filter, hNode.mem_files_iff, and_congr_right_iff]
  exact fun hFound => isWanted_iff (hNode.isEntryName_of_get? hFound)

/-- Searching a listing finds the same modules as taking all files of the
node and keeping those that are wanted. Directories that were passed over
had none of them. -/
theorem declarations_listing (hNode : node.WellFormed) (hFits : node.FitsAt path)
    (hRoot : input.isExcluded "" = false) :
    input.declarations (node.listing path) =
      (input.modulesBelow node).map fun file => Path.ofPlace file.1 := by
  have hPaths : (node.files.map fun file => Path.below "" file.1) =
      node.files.map fun file => Path.ofPlace file.1 := by
    refine List.map_congr_left fun file hFile => Path.below_empty ?_
    exact hNode.isEntryName_of_get? (hNode.mem_files_iff.mp hFile)
  rw [declarations, declarationsAt_listing input hNode hFits (by simp [hRoot]), hPaths,
    List.filter_map]
  rfl

/-- Passing over directories leaves out just the paths that are excluded.
Pruning saves work and does not change what is found. -/
theorem declarations_eq_filter (hNode : node.WellFormed) (hFits : node.FitsAt path)
    (hRoot : input.isExcluded "" = false) :
    input.declarations (node.listing path) =
      (input.unrestricted.declarations (node.listing path)).filter fun found =>
        !input.isExcluded found := by
  have hAll : ∀ found, input.unrestricted.isExcluded found = false := fun _ => rfl
  rw [declarations, declarations, declarationsAt_listing input hNode hFits (by simp [hRoot]),
    declarationsAt_listing _ hNode hFits (by simp [hAll]), List.filter_filter]
  simp only [hAll, Bool.not_false, Bool.true_and]

end InputRoot

/-! ### The search in a tree -/

namespace FileTree

variable {tree : FileTree} {base path text : String} {input : InputRoot} {place : Place}
  {node : Node}

theorem outcome_readModuleText (h : tree.readText path = .ok text) :
    outcome (readModuleText path) tree = .ok text := by
  rw [readModuleText, outcome_readText_bind, h]
  rfl

/-- Every input is searched by itself, and what was found is put together in
the order of the inputs. -/
theorem outcome_collectSources (tree : FileTree) (base : String) (inputs : List InputRoot) :
    outcome (collectSources base inputs) tree =
      (inputs.mapM fun input => outcome (input.sources base) tree).map List.flatten := by
  rw [collectSources, (ReadOnly.mapM (readOnly_sources base) inputs).outcome_bind,
    ReadOnly.outcome_mapM (readOnly_sources base)]
  rfl

/-- Collecting the sources of one input is searching this input. -/
theorem outcome_collectSources_singleton (tree : FileTree) (base : String) (input : InputRoot) :
    outcome (collectSources base [input]) tree = outcome (input.sources base) tree := by
  rw [outcome_collectSources, List.mapM_cons]
  cases outcome (input.sources base) tree with
  | error fault => rfl
  | ok found => simp [Except.map]

namespace Searchable

variable (h : tree.Searchable base input place)

include h

/-- The node that an input leads to fits at the path of the input, and so it
can be listed from there. -/
theorem fitsAt (hNode : tree.nodeAt? place = some node) :
    node.FitsAt (Path.join base input.location) := by
  intro rest hSome
  apply h.fits
  rw [occupant?_eq, Option.isSome_map, nodeAt?_append hNode]
  exact hSome

/-- A wanted file is text. -/
theorem text_of_mem (hNode : tree.nodeAt? place = some node) {rest : Place} {content : ByteArray}
    (hMem : (rest, content) ∈ input.modulesBelow node) :
    tree.occupant? (place ++ rest) = some (.file content) ∧ input.Wants rest ∧
      content = (fileText content).toUTF8 := by
  obtain ⟨hFound, hWants⟩ := (InputRoot.mem_modulesBelow_iff (wellFormed_of_nodeAt? hNode)).mp hMem
  have hFile : tree.occupant? (place ++ rest) = some (.file content) := by
    rw [occupant?_file_iff, nodeAt?_append hNode, hFound]
  obtain ⟨text, rfl⟩ := h.readable rest content hFile hWants
  exact ⟨hFile, hWants, by rw [fileText_toUTF8]⟩

/-- The files found are those of the description, in its order. -/
theorem finds (hNode : tree.nodeAt? place = some node) :
    tree.Finds input place
      ((input.modulesBelow node).map fun file => (file.1, fileText file.2)) where
  mem_iff rest text := by
    constructor
    · intro hMem
      obtain ⟨file, hFile, hSame⟩ := List.mem_map.mp hMem
      cases hSame
      obtain ⟨hOccupant, hWants, hText⟩ := h.text_of_mem hNode hFile
      exact ⟨hText ▸ hOccupant, hWants⟩
    · rintro ⟨hOccupant, hWants⟩
      rw [occupant?_file_iff, nodeAt?_append hNode] at hOccupant
      refine List.mem_map.mpr ⟨(rest, text.toUTF8), ?_, by rw [fileText_toUTF8]⟩
      exact (InputRoot.mem_modulesBelow_iff (wellFormed_of_nodeAt? hNode)).mpr ⟨hOccupant, hWants⟩
  ordered := by
    rw [List.map_map]
    exact (wellFormed_of_nodeAt? hNode).pairwise_files.sublist (List.filter_sublist.map _)

/-- The directory of the input is listed as its node is, since every path
below it fits. -/
theorem listing_eq (hNode : tree.nodeAt? place = some node) :
    tree.listing (Path.join base input.location) =
      .ok (node.listing (Path.join base input.location)) := by
  rw [listing, resolve_ok_iff.mpr ⟨place, h.opens.1, hNode⟩]
  rfl

/-- Each module that was found can be read under the path at which it was
found. -/
theorem readText_eq (hNode : tree.nodeAt? place = some node) {rest : Place} {content : ByteArray}
    (hMem : (rest, content) ∈ input.modulesBelow node) :
    tree.readText (Path.join (Path.join base input.location) (Path.ofPlace rest)) =
      .ok (fileText content) := by
  obtain ⟨hFile, ⟨⟨name, hLast, -⟩, -⟩, hText⟩ := h.text_of_mem hNode hMem
  have hFound := hFile
  rw [occupant?_file_iff, nodeAt?_append hNode] at hFound
  have hNames := (wellFormed_of_nodeAt? hNode).isEntryName_of_get? hFound
  have hRest : rest ≠ [] := fun hNil => by simp [hNil] at hLast
  rw [Path.join_ofPlace _ hRest hNames]
  refine readText_ok_iff.mpr ⟨place ++ rest, h.opens.leadsTo_below h.fits ?_, hText ▸ hFile⟩
  rw [hFile]
  rfl

/-- The search and the reading of what it found are one function of the node
that the input leads to. -/
theorem outcome_sources (hNode : tree.nodeAt? place = some node) :
    outcome (input.sources base) tree =
      .ok ((input.modulesBelow node).map fun file =>
        (Path.slashed (Path.ofPlace file.1), fileText file.2)) := by
  have hRoot := InputRoot.isExcluded_empty h.excludes
  rw [InputRoot.sources, outcome_kind?_bind, kind?_eq_directory_iff.mpr ⟨place, h.opens⟩]
  dsimp only
  rw [outcome_listing_bind, h.listing_eq hNode]
  dsimp only
  rw [ReadOnly.outcome_mapM fun relative =>
      (readOnly_readModuleText _).except_bind fun text => .except_pure _,
    InputRoot.declarations_listing (wellFormed_of_nodeAt? hNode) (h.fitsAt hNode) hRoot,
    mapM_ok_iff, List.forall₂_map_left_iff, List.forall₂_map_right_iff, List.forall₂_same]
  intro file hFile
  rw [(readOnly_readModuleText _).outcome_bind, outcome_readModuleText (h.readText_eq hNode hFile)]
  rfl

end Searchable

/-- The search comes to exactly the wanted files, in order, and passing over
excluded directories leaves out no path but the excluded ones, which have
the names of an exclude in front. What several inputs lead to is put one
behind the other. -/
theorem collectSources_finds (tree : FileTree) (base : String) :
    (∀ input place, tree.Searchable base input place →
      (∃ found, tree.Finds input place found ∧
        (collectSources (m := StateM FileTree) base [input]).run tree =
          (.ok (found.map fun file => (Path.slashed (Path.ofPlace file.1), file.2)), tree)) ∧
      ∃ listing, tree.listing (Path.join base input.location) = .ok listing ∧
        input.declarations listing =
          (input.unrestricted.declarations listing).filter fun found =>
            !input.isExcluded found) ∧
    (∀ (input : InputRoot) (path : String), input.isExcluded path = true ↔
      ∃ exclude ∈ input.excludes,
        Path.segments (Path.dropEndSlashes exclude) <+: Path.segments (Path.slashed path)) ∧
    ∀ inputs, outcome (collectSources base inputs) tree =
      (inputs.mapM fun input => outcome (collectSources base [input]) tree).map List.flatten := by
  refine ⟨?_, fun input path => InputRoot.isExcluded_iff, ?_⟩
  · intro input place h
    obtain ⟨entries, hNode⟩ := occupant?_directory_iff.mp h.opens.2
    constructor
    · refine ⟨_, h.finds hNode, ?_⟩
      rw [(readOnly_collectSources base [input]).run_eq, outcome_collectSources_singleton,
        h.outcome_sources hNode, List.map_map]
      rfl
    · exact ⟨_, h.listing_eq hNode, InputRoot.declarations_eq_filter (wellFormed_of_nodeAt? hNode)
        (h.fitsAt hNode) (InputRoot.isExcluded_empty h.excludes)⟩
  · intro inputs
    simp only [outcome_collectSources_singleton]
    exact outcome_collectSources tree base inputs

/-- A directory `bin`, and a module whose name only begins like that. -/
def besideBin : FileTree :=
  let withBin := FileTree.empty.insertAt [] ⟨"bin", by decide⟩ (.directory []) .empty
  let withInner := withBin.insertAt ["bin"] ⟨"a.d.ts", by decide⟩ (.file "".toUTF8) (.file _)
  withInner.insertAt [] ⟨"binary.d.ts", by decide⟩ (.file "export function f(): void;".toUTF8)
    (.file _)

theorem entries_besideBin :
    besideBin.entries = [("bin", .directory [("a.d.ts", .file "".toUTF8)]),
      ("binary.d.ts", .file "export function f(): void;".toUTF8)] := rfl

theorem files_besideBin :
    (Node.directory besideBin.entries).files = [(["bin", "a.d.ts"], "".toUTF8),
      (["binary.d.ts"], "export function f(): void;".toUTF8)] := rfl

theorem fitsAt_besideBin : (Node.directory besideBin.entries).FitsAt "." := by
  cases besideBin.wellFormed with
  | directory sorted named formed =>
      refine (Node.fitsAt_directory_iff sorted).mpr ⟨by decide, ?_⟩
      rw [entries_besideBin, List.forall_mem_cons, List.forall_mem_singleton]
      constructor
      · refine (Node.fitsAt_directory_iff (List.pairwise_singleton _ _)).mpr ⟨by decide, ?_⟩
        rw [List.forall_mem_singleton]
        exact Node.fitsAt_file_iff.mpr (by decide)
      · exact Node.fitsAt_file_iff.mpr (by decide)

theorem searchable_besideBin :
    besideBin.Searchable "" { location := ".", excludes := ["bin/"] } [] where
  opens := ⟨⟨["."], by decide +kernel, rfl⟩, rfl⟩
  excludes := by decide
  fits rest hSome := by
    apply fitsAt_besideBin
    rwa [occupant?_eq, Option.isSome_map] at hSome
  readable rest content hFile hWants := by
    have hMem := besideBin.wellFormed.mem_files_iff.mpr (occupant?_file_iff.mp hFile)
    rw [files_besideBin, List.mem_cons, List.mem_singleton] at hMem
    rcases hMem with hSame | hSame
    · exact ⟨_, (Prod.mk.inj hSame).2⟩
    · exact ⟨_, (Prod.mk.inj hSame).2⟩

theorem collectSources_finds_besideBin :
    besideBin.Searchable "" { location := ".", excludes := ["bin/"] } [] ∧
    ∃ found, besideBin.Finds { location := ".", excludes := ["bin/"] } [] found ∧
      (["binary.d.ts"], "export function f(): void;") ∈ found ∧
      (∀ text, (["bin", "a.d.ts"], text) ∉ found) ∧
      (collectSources (m := StateM FileTree) "" [{ location := ".", excludes := ["bin/"] }]).run
          besideBin =
        (.ok (found.map fun file => (Path.slashed (Path.ofPlace file.1), file.2)), besideBin) := by
  obtain ⟨⟨found, hFinds, hRun⟩, -⟩ :=
    (collectSources_finds besideBin "").1 _ _ searchable_besideBin
  refine ⟨searchable_besideBin, found, hFinds, ?_, fun text hMem => ?_, hRun⟩
  · exact (hFinds.mem_iff _ _).mpr ⟨rfl, ⟨_, rfl, by decide⟩, by decide⟩
  · exact absurd ((hFinds.mem_iff _ _).mp hMem).2.kept (by decide)

end FileTree

end ScriptBindings
