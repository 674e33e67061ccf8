import Mathlib.Data.List.TakeWhile
import ScriptBindings.Proofs.Storage.Files

/-! Directories that are made. Making a directory and those around it adds
directories where nothing was, and does nothing more. The path then leads to
a directory; where it did so before, nothing is made. -/
namespace ScriptBindings

open Outcomes
open Node (Entries Place)

namespace FileTree

variable {tree before after made : FileTree} {path : String} {place : Place}
  {segments : List String}

/-- Nothing is changed, but directories may be new. -/
def Grown (before after : FileTree) : Prop :=
  ∀ place, after.occupant? place = before.occupant? place ∨
    before.occupant? place = none ∧ after.occupant? place = some .directory

theorem Grown.refl (tree : FileTree) : Grown tree tree :=
  fun _ => Or.inl rfl

/-- What was there is kept through every growth, so that growing in steps is
growing. -/
theorem Grown.trans {between : FileTree} (h : Grown before between) (hAfter : Grown between after) :
    Grown before after := by
  intro place
  rcases h place with hSame | ⟨hNone, hMade⟩
  · rw [← hSame]
    exact hAfter place
  · refine Or.inr ⟨hNone, ?_⟩
    rcases hAfter place with hSame | ⟨hNot, -⟩
    · rw [hSame, hMade]
    · rw [hMade] at hNot
      cases hNot

/-- Empty segments at the end of a path lead nowhere. -/
theorem exists_dropEmpty (segments : List String) :
    ∃ empties, segments = dropEmpty segments ++ empties ∧ ∀ segment ∈ empties, segment = "" := by
  refine ⟨(segments.reverse.takeWhile (· == "")).reverse, ?_, fun segment hMem => ?_⟩
  · rw [dropEmpty, ← List.reverse_append, List.takeWhile_append_dropWhile, List.reverse_reverse]
  · have hEmpty := List.mem_takeWhile_imp (List.mem_reverse.mp hMem)
    exact beq_iff_eq.mp hEmpty

/-- Empty segments stay where they are, be they from slashes at the end or
from doubled ones. -/
theorem foldlM_step_empty (hDirectory : tree.occupant? place = some .directory)
    (hEmpty : ∀ segment ∈ segments, segment = "") :
    segments.foldlM tree.step place = .ok place := by
  induction segments with
  | nil => rfl
  | cons segment rest ih =>
      obtain ⟨rfl, hRest⟩ := List.forall_mem_cons.mp hEmpty
      have hStays : tree.step place "" = .ok place := by
        unfold step
        rw [hDirectory]
        rfl
      rw [List.foldlM_cons, hStays]
      exact ih hRest

/-- A path goes on to a directory in the place that its front leads to. -/
theorem follow_directory {front empties : List String} {name : String}
    (hFront : tree.follow front = .ok place) (hName : isEntryName name = true)
    (hPlace : tree.occupant? place = some .directory)
    (hThere : tree.occupant? (place ++ [name]) = some .directory)
    (hEmpty : ∀ segment ∈ empties, segment = "") :
    tree.follow (front ++ name :: empties) = .ok (place ++ [name]) := by
  have hNext := (step_name hPlace hName).mpr ⟨rfl, by rw [hThere]; rfl⟩
  rw [follow] at hFront
  rw [follow, List.foldlM_append, hFront, ok_bind, List.foldlM_cons, hNext, ok_bind]
  exact foldlM_step_empty hThere hEmpty

/-- No path goes on by a name that the place does not have. -/
theorem follow_nothing {front empties : List String} {name : String} {target : Place}
    (hFront : tree.follow front = .ok place) (hName : isEntryName name = true)
    (hPlace : tree.occupant? place = some .directory)
    (hNothing : tree.occupant? (place ++ [name]) = none) :
    tree.follow (front ++ name :: empties) ≠ .ok target := by
  intro hTo
  rw [follow] at hFront
  rw [follow, List.foldlM_append, hFront, ok_bind, List.foldlM_cons] at hTo
  obtain ⟨next, hNext, -⟩ := bind_ok hTo
  obtain ⟨rfl, hSome⟩ := (step_name hPlace hName).mp hNext
  rw [hNothing] at hSome
  cases hSome

/-- A directory is made by the last segment of its path that is not empty,
in the directory that the segments before it lead to. -/
theorem inversion_of_makeDirectory (h : tree.makeDirectory path = .ok made) :
    ∃ place entries found front empties,
      followable path = .ok (front ++ found.1 :: empties) ∧ (∀ segment ∈ empties, segment = "") ∧
      tree.follow front = .ok place ∧ tree.nodeAt? place = some (.directory entries) ∧
      entries.lookup found.1 = none ∧
      made = tree.insertAt place found (.directory []) .empty := by
  obtain ⟨⟨place, entries⟩, hParent, h⟩ := bind_ok h
  obtain ⟨found, hTarget, h⟩ := bind_ok h
  obtain ⟨segments, hSegments, hFront, hEntries⟩ := resolveParent_ok_iff.mp hParent
  have hSame := (followable_ok_iff.mp hSegments).2.2.2
  rw [targetDirectory, entryName_ok_iff, ← hSame] at hTarget
  obtain ⟨empties, hAll, hEmpty⟩ := exists_dropEmpty segments
  obtain ⟨front, hLast⟩ := List.getLast?_eq_some_iff.mp hTarget
  rw [hLast, List.dropLast_concat] at hFront
  rw [hLast, List.append_assoc, List.singleton_append] at hAll
  split at h
  · cases h
  · next hFree =>
      cases h
      exact ⟨place, entries, found, front, empties, hAll ▸ hSegments, hEmpty, hFront, hEntries,
        Option.not_isSome_iff_eq_none.mp hFree, rfl⟩

/-- One directory is made where nothing was, and its path led nowhere. -/
theorem changed_of_makeDirectory (h : tree.makeDirectory path = .ok made) :
    (∀ place, ¬tree.LeadsTo path place) ∧
      ∃ place, tree.occupant? place = none ∧ Changed tree made place (some .directory) ∧
        made.Opens path place := by
  obtain ⟨place, entries, found, front, empties, hSegments, hEmpty, hFront, hEntries, hNone, rfl⟩ :=
    inversion_of_makeDirectory h
  have hPlace : tree.occupant? place = some .directory :=
    occupant?_directory_iff.mpr ⟨entries, hEntries⟩
  have hNothing : tree.occupant? (place ++ [found.1]) = none := by
    rw [occupant?_concat hEntries, hNone]
    rfl
  have hChanged := changed_insertAt_directory hEntries hNone
  have hKeeps := hChanged.keepsDirectories (Or.inr rfl)
  refine ⟨?_, place ++ [found.1], hNothing, hChanged, ⟨_, hSegments, ?_⟩, hChanged.here⟩
  · rintro target ⟨same, hFollowed, hTo⟩
    cases hSegments.symm.trans hFollowed
    exact follow_nothing hFront found.2 hPlace hNothing hTo
  · exact follow_directory (follow_of_keepsDirectories hKeeps hFront hPlace) found.2
      (hKeeps _ hPlace) hChanged.here hEmpty

/-- Making a directory where nothing was takes nothing away. -/
theorem Changed.grown (h : Changed before after place (some .directory))
    (hNothing : before.occupant? place = none) : Grown before after := by
  intro other
  by_cases hSame : other = place
  · subst hSame
    exact Or.inr ⟨hNothing, h.here⟩
  · exact Or.inl (h.elsewhere other hSame)

/-- A directory that was ensured can be opened, and nothing was lost for
it. -/
theorem opens_of_ensureDirectory (h : tree.ensureDirectory path = .ok made) :
    Grown tree made ∧ ∃ place, made.Opens path place := by
  unfold ensureDirectory at h
  split at h
  · next new hMade =>
      cases h
      obtain ⟨-, place, hNothing, hChanged, hOpens⟩ := changed_of_makeDirectory hMade
      exact ⟨hChanged.grown hNothing, place, hOpens⟩
  · split at h
    · next hKind =>
        cases h
        exact ⟨.refl _, kind?_eq_directory_iff.mp (beq_iff_eq.mp hKind)⟩
    · cases h

theorem ensureDirectory_of_opens (h : tree.Opens path place) :
    tree.ensureDirectory path = .ok tree := by
  unfold ensureDirectory
  split
  · next made hMade => exact absurd h.1 ((changed_of_makeDirectory hMade).1 place)
  · rw [if_pos (beq_iff_eq.mpr (kind?_eq_directory_iff.mpr ⟨place, h⟩))]

/-- Making the directories on the way to a path only adds to the tree,
whether or not it succeeds in the end. By induction on the fuel, which
bounds how far up the first existing one is. -/
theorem grown_ensureWithin (fuel : Nat) (tree : FileTree) (path : String) :
    Grown tree (ensureWithin fuel tree path).2 ∧
      ((ensureWithin fuel tree path).1 = .ok () → path ≠ "" →
        ∃ place, (ensureWithin fuel tree path).2.Opens path place) := by
  fun_induction ensureWithin fuel tree path with
  | case1 fuel tree path hEmpty =>
      exact ⟨.refl _, fun _ hPath => absurd (beq_iff_eq.mp hEmpty) hPath⟩
  | case2 fuel tree path _ made hMade =>
      obtain ⟨hGrown, hOpens⟩ := opens_of_ensureDirectory hMade
      exact ⟨hGrown, fun _ _ => hOpens⟩
  | case3 tree path _ fuel _ fault made hOuter ih =>
      rw [hOuter] at ih
      exact ⟨ih.1, nofun⟩
  | case4 tree path _ fuel _ around hOuter made hMade ih =>
      rw [hOuter] at ih
      obtain ⟨hGrown, hOpens⟩ := opens_of_ensureDirectory hMade
      exact ⟨ih.1.trans hGrown, fun _ _ => hOpens⟩
  | case5 tree path _ fuel _ around hOuter fault _ ih =>
      rw [hOuter] at ih
      exact ⟨ih.1, nofun⟩
  | case6 => exact ⟨.refl _, nofun⟩

/-- So making directories never takes anything away, even where it fails
half way and leaves those it has made. -/
theorem grown_makeDirectories (tree : FileTree) (path : String) :
    Grown tree (tree.makeDirectories path).2 :=
  (grown_ensureWithin _ tree path).1

theorem opens_of_makeDirectories (h : (tree.makeDirectories path).1 = .ok ()) (hPath : path ≠ "") :
    ∃ place, (tree.makeDirectories path).2.Opens path place :=
  (grown_ensureWithin _ tree path).2 h hPath

/-- Making a directory that is there already succeeds and changes nothing. A
second run begins with this. -/
theorem makeDirectories_of_opens (h : tree.Opens path place) :
    tree.makeDirectories path = (.ok (), tree) := by
  unfold makeDirectories ensureWithin
  rw [if_neg (by simpa using h.ne_empty), ensureDirectory_of_opens h]

end FileTree

end ScriptBindings
