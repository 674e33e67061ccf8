import Mathlib.Data.List.Infix
import ScriptBindings.Proofs.Outcomes
import ScriptBindings.Storage.Tree

/-! Trees place by place. A change of one directory shows at one place only,
and where a path leads depends on nothing but what is at each place. -/
namespace ScriptBindings

open Node (Entries Place)

/-! ### Entries of one directory -/

namespace SortedEntries

variable {α : Type} {key other : String}

@[simp] theorem lookup_erase_self (key : String) (entries : List (String × α)) :
    (erase key entries).lookup key = none := by
  rw [List.lookup_eq_none_iff]
  intro entry hEntry
  have hKept := (List.mem_filter.mp hEntry).2
  rw [bne_iff_ne] at hKept
  exact bne_iff_ne.mpr hKept.symm

theorem lookup_erase_of_ne (entries : List (String × α)) (h : other ≠ key) :
    (erase key entries).lookup other = entries.lookup other := by
  induction entries with
  | nil => rfl
  | cons entry rest ih =>
      obtain ⟨name, value⟩ := entry
      rw [erase, List.filter_cons]
      by_cases hName : name = key
      · subst hName
        rw [if_neg (by simp), ← erase, ih, List.lookup_cons, beq_false_of_ne h]
      · rw [if_pos (by simpa using hName), List.lookup_cons, List.lookup_cons, ← erase, ih]

theorem nodup_of_sorted {entries : List (String × α)} (h : Sorted entries) :
    (entries.map (·.1)).Nodup := by
  rw [List.Nodup, List.pairwise_map]
  refine h.imp ?_
  rintro ⟨first, _⟩ ⟨second, _⟩ hLess (rfl : first = second)
  exact String.lt_irrefl first hLess

theorem lookup_of_mem {entries : List (String × α)} (h : Sorted entries) {value : α}
    (hMem : (key, value) ∈ entries) : entries.lookup key = some value := by
  induction entries with
  | nil => cases hMem
  | cons entry rest ih =>
      obtain ⟨above, tail⟩ := List.pairwise_cons.mp h
      rcases List.mem_cons.mp hMem with rfl | hRest
      · exact List.lookup_cons_self
      · have hLess : entry.1 < key := above _ hRest
        have hDiffers : (key == entry.1) = false :=
          beq_false_of_ne fun hSame => String.lt_irrefl _ (hSame ▸ hLess)
        rw [List.lookup_cons, hDiffers]
        exact ih tail hRest

end SortedEntries

/-! ### What is at a place -/

/-- What a place holds, whatever lies below it. -/
inductive Occupant where
  | file (content : ByteArray)
  | directory

namespace Node

def occupant : Node → Occupant
  | .file content => .file content
  | .directory _ => .directory

variable {node : Node} {entries inner : Entries} {place rest : Place} {name : String}

theorem occupant_eq_directory_iff :
    node.occupant = .directory ↔ ∃ entries, node = .directory entries := by
  cases node <;> simp [occupant]

theorem occupant_eq_file_iff {content : ByteArray} :
    node.occupant = .file content ↔ node = .file content := by
  cases node <;> simp [occupant]

/-- What a place holds in a tree of nodes. -/
def occupant? (node : Node) (place : Place) : Option Occupant :=
  (node.get? place).map occupant

theorem get?_append (node : Node) (place rest : Place) :
    node.get? (place ++ rest) = (node.get? place).bind (·.get? rest) := by
  induction place generalizing node with
  | nil => simp [get?]
  | cons name later ih =>
      cases node with
      | file content => simp [get?]
      | directory entries =>
          rw [List.cons_append, get?, get?]
          cases entries.lookup name with
          | none => rfl
          | some below => exact ih below

theorem WellFormed.of_get? {below : Node} (hNode : node.WellFormed)
    (h : node.get? place = some below) : below.WellFormed := by
  induction place generalizing node with
  | nil =>
      cases h
      exact hNode
  | cons name rest ih =>
      cases hNode with
      | file content => cases h
      | directory sorted named formed =>
          obtain ⟨inner, hInner, hRest⟩ := Option.bind_eq_some_iff.mp h
          exact ih (formed _ (SortedEntries.mem_of_lookup hInner)) hRest

/-- The directory at a place is changed and all directories around it stay
in place. -/
theorem get?_changeAt {change : Entries → Entries}
    (h : (Node.directory entries).get? place = some (.directory inner)) :
    (Node.directory (changeAt change place entries)).get? place =
      some (.directory (change inner)) := by
  induction place generalizing entries with
  | nil =>
      cases h
      rfl
  | cons name rest ih =>
      rw [get?] at h
      obtain ⟨below, hFound, hBelow⟩ := Option.bind_eq_some_iff.mp h
      cases below with
      | file content =>
          cases rest with
          | nil => cases hBelow
          | cons next later => cases hBelow
      | directory within =>
          rw [changeAt, hFound, get?, SortedEntries.lookup_insert_self]
          exact ih hBelow

/-- A place that is not below the changed directory holds what it held. -/
theorem occupant?_changeAt_of_not_prefix {change : Entries → Entries} {other : Place}
    (h : ¬place <+: other) :
    (Node.directory (changeAt change place entries)).occupant? other =
      (Node.directory entries).occupant? other := by
  induction place generalizing entries other with
  | nil => exact absurd List.nil_prefix h
  | cons name rest ih =>
      rw [changeAt]
      cases hFound : entries.lookup name with
      | none => rfl
      | some below =>
          cases below with
          | file content => rfl
          | directory inner =>
              cases other with
              | nil => rfl
              | cons next later =>
                  by_cases hSame : next = name
                  · subst hSame
                    have hLater : ¬rest <+: later := fun hPrefix =>
                      h (List.cons_prefix_cons.mpr ⟨rfl, hPrefix⟩)
                    rw [occupant?, occupant?, get?, get?, SortedEntries.lookup_insert_self, hFound]
                    exact ih hLater
                  · rw [occupant?, occupant?, get?, get?,
                      SortedEntries.lookup_insert_of_ne _ _ hSame]

end Node

namespace FileTree

variable {tree before after : FileTree} {place other : Place} {name : EntryName}
  {entries : Entries} {content : ByteArray}

/-- What a place holds. -/
def occupant? (tree : FileTree) (place : Place) : Option Occupant :=
  (Node.directory tree.entries).occupant? place

theorem occupant?_eq (tree : FileTree) (place : Place) :
    tree.occupant? place = (tree.nodeAt? place).map Node.occupant := rfl

/-- A place is occupied by a directory exactly if the node there is one,
whatever it has in it. -/
theorem occupant?_directory_iff :
    tree.occupant? place = some .directory ↔
      ∃ entries, tree.nodeAt? place = some (.directory entries) := by
  rw [occupant?_eq, Option.map_eq_some_iff]
  constructor
  · rintro ⟨node, hNode, hOccupant⟩
    obtain ⟨entries, rfl⟩ := Node.occupant_eq_directory_iff.mp hOccupant
    exact ⟨entries, hNode⟩
  · rintro ⟨entries, hNode⟩
    exact ⟨_, hNode, rfl⟩

theorem occupant?_file_iff :
    tree.occupant? place = some (.file content) ↔ tree.nodeAt? place = some (.file content) := by
  rw [occupant?_eq, Option.map_eq_some_iff]
  constructor
  · rintro ⟨node, hNode, hOccupant⟩
    rwa [Node.occupant_eq_file_iff.mp hOccupant] at hNode
  · exact fun hNode => ⟨_, hNode, rfl⟩

/-- An entry of a directory is at the place below it. Places and entries are
two views of the same tree. -/
theorem occupant?_concat (h : tree.nodeAt? place = some (.directory entries)) (name : String) :
    tree.occupant? (place ++ [name]) = (entries.lookup name).map Node.occupant := by
  rw [occupant?_eq, nodeAt?, Node.get?_concat h name]

/-- What lies around something is a directory, since files have nothing
below them. -/
theorem occupant?_of_append {rest : Place} (hRest : rest ≠ [])
    (h : (tree.occupant? (place ++ rest)).isSome) : tree.occupant? place = some .directory := by
  rw [occupant?_eq, Option.isSome_map, nodeAt?, Node.get?_append] at h
  obtain ⟨found, hFound⟩ := Option.isSome_iff_exists.mp h
  obtain ⟨node, hNode, hBelow⟩ := Option.bind_eq_some_iff.mp hFound
  obtain ⟨name, later, rfl⟩ := List.exists_cons_of_ne_nil hRest
  cases node with
  | file content => cases hBelow
  | directory entries => exact occupant?_directory_iff.mpr ⟨entries, hNode⟩

/-- Every node of a tree is well formed, because the tree carries the
proof. -/
theorem wellFormed_of_nodeAt? {node : Node} (h : tree.nodeAt? place = some node) :
    node.WellFormed :=
  tree.wellFormed.of_get? h

/-- What a directory holds has a name that an entry can have. The tree
carries this in its well-formedness. -/
theorem isEntryName_of_occupant? {name : String} (h : (tree.occupant? (place ++ [name])).isSome) :
    isEntryName name = true := by
  obtain ⟨entries, hDirectory⟩ :=
    occupant?_directory_iff.mp (occupant?_of_append (List.cons_ne_nil name []) h)
  rw [occupant?_concat hDirectory, Option.isSome_map] at h
  obtain ⟨node, hNode⟩ := Option.isSome_iff_exists.mp h
  cases wellFormed_of_nodeAt? hDirectory with
  | directory sorted named below => exact named (name, node) (SortedEntries.mem_of_lookup hNode)

/-! ### Changes of one place -/

/-- One place is changed and every other is as it was. -/
structure Changed (before after : FileTree) (place : Place) (now : Option Occupant) : Prop where
  here : after.occupant? place = now
  elsewhere : ∀ other, other ≠ place → after.occupant? other = before.occupant? other

/-- Entries of one directory are changed, one after another. -/
inductive Changes (place : Place) :
    FileTree → List (String × Option Occupant) → FileTree → Prop where
  | none (tree : FileTree) : Changes place tree [] tree
  | next {before between after : FileTree} {name : String} {now : Option Occupant}
      {rest : List (String × Option Occupant)}
      (first : Changed before between (place ++ [name]) now)
      (later : Changes place between rest after) : Changes place before ((name, now) :: rest) after

theorem concat_ne_concat {first second : String} (h : first ≠ second) :
    place ++ [first] ≠ place ++ [second] :=
  fun hSame => h (List.singleton_inj.mp (List.append_cancel_left hSame))

/-- Changes of entries leave all other places as they were, in the same
directory and outside of it. -/
theorem Changes.elsewhere {changes : List (String × Option Occupant)}
    (h : Changes place before changes after)
    (hOther : ∀ name ∈ changes.map (·.1), other ≠ place ++ [name]) :
    after.occupant? other = before.occupant? other := by
  induction h with
  | none tree => rfl
  | next first later ih =>
      rw [List.map_cons, List.forall_mem_cons] at hOther
      rw [ih hOther.2, first.elsewhere other hOther.1]

/-- Each changed entry is as it was changed, provided that no name is
changed twice. -/
theorem Changes.here {changes : List (String × Option Occupant)} {name : String}
    {now : Option Occupant} (h : Changes place before changes after)
    (hNodup : (changes.map (·.1)).Nodup) (hMem : (name, now) ∈ changes) :
    after.occupant? (place ++ [name]) = now := by
  induction h with
  | none tree => cases hMem
  | next first later ih =>
      rw [List.map_cons, List.nodup_cons] at hNodup
      rcases List.mem_cons.mp hMem with hHead | hRest
      · cases hHead
        rw [later.elsewhere, first.here]
        exact fun key hKey => concat_ne_concat fun hSame => hNodup.1 (hSame ▸ hKey)
      · exact ih hNodup.2 hRest

/-- A change of the entries of one directory that concerns one name, which
is and stays no directory with something in it. -/
theorem changed_of_entries {change : Entries → Entries} {name : String} (now : Option Node)
    (hDirectory : before.nodeAt? place = some (.directory entries))
    (hAfter : after.entries = Node.changeAt change place before.entries)
    (hHere : (change entries).lookup name = now)
    (hOthers : ∀ other, other ≠ name → (change entries).lookup other = entries.lookup other)
    (hWas : ∀ first later, (entries.lookup name).bind (·.get? (first :: later)) = none)
    (hNow : ∀ first later, now.bind (·.get? (first :: later)) = none) :
    Changed before after (place ++ [name]) (now.map Node.occupant) := by
  have hChanged : after.nodeAt? place = some (.directory (change entries)) := by
    rw [nodeAt?, hAfter]
    exact Node.get?_changeAt hDirectory
  refine ⟨by rw [occupant?_concat hChanged, hHere], fun other hOther => ?_⟩
  by_cases hBelow : place <+: other
  · obtain ⟨rest, rfl⟩ := hBelow
    rw [occupant?_eq, occupant?_eq, nodeAt?, nodeAt?, Node.get?_append, Node.get?_append]
    rw [nodeAt?] at hChanged hDirectory
    rw [hChanged, hDirectory]
    cases rest with
    | nil => rfl
    | cons next later =>
        change ((change entries).lookup next >>= fun node => node.get? later).map _ =
          (entries.lookup next >>= fun node => node.get? later).map _
        by_cases hName : next = name
        · subst hName
          cases later with
          | nil => exact absurd rfl hOther
          | cons first more =>
              rw [hHere]
              exact congrArg _ ((hNow first more).trans (hWas first more).symm)
        · rw [hOthers next hName]
  · rw [occupant?, hAfter]
    exact Node.occupant?_changeAt_of_not_prefix hBelow

variable (hDirectory : tree.nodeAt? place = some (.directory entries))

include hDirectory

/-- Putting a file in a directory changes the one entry and nothing else.
Below the entry there was nothing that could be lost. -/
theorem changed_insertAt_file
    (hWas : ∀ inner, entries.lookup name.1 ≠ some (.directory inner)) :
    Changed tree (tree.insertAt place name (.file content) (.file content)) (place ++ [name.1])
      (some (.file content)) := by
  refine changed_of_entries (some (.file content)) hDirectory rfl
    (SortedEntries.lookup_insert_self _ _ _)
    (fun other hOther => SortedEntries.lookup_insert_of_ne _ _ hOther) (fun first later => ?_)
    fun _ _ => rfl
  cases hFound : entries.lookup name.1 with
  | none => rfl
  | some node =>
      cases node with
      | file content => rfl
      | directory inner => exact absurd hFound (hWas inner)

/-- Making a directory where no entry was changes this entry. -/
theorem changed_insertAt_directory (hWas : entries.lookup name.1 = none) :
    Changed tree (tree.insertAt place name (.directory []) .empty) (place ++ [name.1])
      (some .directory) := by
  refine changed_of_entries (some (.directory [])) hDirectory rfl
    (SortedEntries.lookup_insert_self _ _ _)
    (fun other hOther => SortedEntries.lookup_insert_of_ne _ _ hOther) (fun first later => ?_)
    fun _ _ => rfl
  rw [hWas]
  rfl

theorem changed_eraseAt (hWas : entries.lookup name.1 = some (.file content)) :
    Changed tree (tree.eraseAt place name) (place ++ [name.1]) none := by
  refine changed_of_entries none hDirectory rfl (SortedEntries.lookup_erase_self _ _)
    (fun other hOther => SortedEntries.lookup_erase_of_ne _ hOther) (fun first later => ?_)
    fun _ _ => rfl
  rw [hWas]
  rfl

end FileTree

end ScriptBindings
