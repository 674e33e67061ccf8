import ScriptBindings.Proofs.Storage.Places

/-! Files in a directory. A path that leads to a directory goes on leading
there as long as no directory is taken away. The path of a name in the
directory then leads to the place below it, and reading, writing and
removing concern that place alone. -/
namespace ScriptBindings

open Outcomes
open Node (Entries Place)

namespace FileTree

variable {tree before after : FileTree} {path name text : String} {place : Place}

/-! ### Where paths lead -/

/-- One segment further from a place. Every segment needs a directory to be
followed in. -/
def step (tree : FileTree) (place : Place) (segment : String) : Except StorageFault Place :=
  match tree.occupant? place with
  | some .directory =>
      if segment == "" || segment == "." then .ok place
      else if segment == ".." then .ok place.dropLast
      else if (tree.occupant? (place ++ [segment])).isSome then .ok (place ++ [segment])
      else .error (if nameLimit < segment.utf8ByteSize then .nameTooLong else .notFound)
  | _ => .error .notDirectory

/-- The place that segments lead to from the top. -/
def follow (tree : FileTree) (segments : List String) : Except StorageFault Place :=
  segments.foldlM tree.step []

/-- A path that can be followed, and the place it leads to. -/
def LeadsTo (tree : FileTree) (path : String) (place : Place) : Prop :=
  ∃ segments, followable path = .ok segments ∧ tree.follow segments = .ok place

/-- A path that leads to a directory. -/
def Opens (tree : FileTree) (path : String) (place : Place) : Prop :=
  tree.LeadsTo path place ∧ tree.occupant? place = some .directory

namespace Walk

variable {walk onward : Walk} {segments : List String}

/-- Going back leads to the place without its last name. At the root it
stays there. -/
theorem place_back (walk : Walk) : walk.back.place = walk.place.dropLast := by
  obtain ⟨node, passed⟩ := walk
  cases passed with
  | nil => rfl
  | cons last outer => simp [back, Walk.place]

/-- A walk within a tree stands on what the tree has at its place. -/
theorem occupant?_place (h : walk.Within tree) :
    tree.occupant? walk.place = some walk.node.occupant := by
  rw [occupant?_eq, nodeAt?_place h]
  rfl

/-- A walk goes from place to place. -/
theorem place_follow (h : walk.Within tree) (segment : String) :
    (walk.follow segment).map Walk.place = tree.step walk.place segment := by
  have hOccupant := occupant?_place h
  have hNode := nodeAt?_place h
  unfold Walk.follow FileTree.step
  rw [hOccupant]
  cases hKind : walk.node with
  | file content => rfl
  | directory entries =>
      rw [hKind] at hNode
      dsimp only [Node.occupant]
      split
      · rfl
      · split
        · exact congrArg Except.ok walk.place_back
        · rw [occupant?_concat hNode]
          cases entries.lookup segment with
          | none => rfl
          | some below => simp [Except.map, Walk.place]

theorem within_foldlM (h : walk.Within tree)
    (hRun : segments.foldlM Walk.follow walk = .ok onward) :
    onward.Within tree := by
  induction segments generalizing walk with
  | nil =>
      cases hRun
      exact h
  | cons segment rest ih =>
      rw [List.foldlM_cons] at hRun
      obtain ⟨next, hNext, hRest⟩ := bind_ok hRun
      exact ih (within_follow h hNext) hRest

/-- A walk that keeps its nodes goes the same way as one that looks each
place up anew. The simpler one is what later proofs follow. -/
theorem place_foldlM (h : walk.Within tree) (segments : List String) :
    (segments.foldlM Walk.follow walk).map Walk.place = segments.foldlM tree.step walk.place := by
  induction segments generalizing walk with
  | nil => rfl
  | cons segment rest ih =>
      rw [List.foldlM_cons, List.foldlM_cons, ← place_follow h]
      cases hNext : walk.follow segment with
      | error fault => rfl
      | ok next => exact ih (within_follow h hNext)

end Walk

theorem foldlM_start_ok_iff {segments : List String} {node : Node} :
    (∃ walk, segments.foldlM Walk.follow tree.start = .ok walk ∧ walk.place = place ∧
        walk.node = node) ↔
      tree.follow segments = .ok place ∧ tree.nodeAt? place = some node := by
  have hPlaces := Walk.place_foldlM (.start : tree.start.Within tree) segments
  constructor
  · rintro ⟨walk, hWalk, rfl, rfl⟩
    rw [hWalk] at hPlaces
    exact ⟨hPlaces.symm, Walk.nodeAt?_place (Walk.within_foldlM .start hWalk)⟩
  · rintro ⟨hFollow, hNode⟩
    obtain ⟨walk, hWalk, rfl⟩ := map_ok (hPlaces.trans hFollow)
    rw [Walk.nodeAt?_place (Walk.within_foldlM .start hWalk)] at hNode
    exact ⟨walk, hWalk, rfl, Option.some.inj hNode⟩

/-- A path is resolved exactly if it leads to a place, and then to the node
there. -/
theorem resolve_ok_iff {node : Node} :
    tree.resolve path = .ok node ↔
      ∃ place, tree.LeadsTo path place ∧ tree.nodeAt? place = some node := by
  constructor
  · intro h
    obtain ⟨segments, hSegments, h⟩ := bind_ok h
    obtain ⟨walk, hWalk, h⟩ := bind_ok h
    have hPlace := foldlM_start_ok_iff.mp ⟨walk, hWalk, rfl, Except.ok.inj h⟩
    exact ⟨walk.place, ⟨segments, hSegments, hPlace.1⟩, hPlace.2⟩
  · rintro ⟨place, ⟨segments, hSegments, hFollow⟩, hNode⟩
    obtain ⟨walk, hWalk, -, rfl⟩ := foldlM_start_ok_iff.mpr ⟨hFollow, hNode⟩
    rw [resolve, hSegments, ok_bind, hWalk]
    rfl

/-- A path is one of a directory exactly if a directory is opened by it,
which may be reached through dots and doubled slashes. -/
theorem kind?_eq_directory_iff :
    tree.kind? path = some .directory ↔ ∃ place, tree.Opens path place := by
  constructor
  · intro h
    obtain ⟨node, hNode, hKind⟩ := Option.map_eq_some_iff.mp h
    cases hResolve : tree.resolve path with
    | error fault =>
        rw [hResolve] at hNode
        cases hNode
    | ok found =>
        rw [hResolve] at hNode
        cases hNode
        obtain ⟨place, hLeads, hFound⟩ := resolve_ok_iff.mp hResolve
        cases node with
        | file content => cases hKind
        | directory entries => exact ⟨place, hLeads, occupant?_directory_iff.mpr ⟨_, hFound⟩⟩
  · rintro ⟨place, hLeads, hDirectory⟩
    obtain ⟨entries, hEntries⟩ := occupant?_directory_iff.mp hDirectory
    rw [kind?, resolve_ok_iff.mpr ⟨place, hLeads, hEntries⟩]
    rfl

/-- Bytes are those of a text exactly if they are its encoding, so that a
text is determined by its file. -/
theorem fromUTF8?_eq_some_iff {bytes : ByteArray} :
    String.fromUTF8? bytes = some text ↔ bytes = text.toUTF8 := by
  unfold String.fromUTF8?
  constructor
  · intro h
    split at h
    · rw [← Option.some.inj h]
      rfl
    · cases h
  · rintro rfl
    exact dif_pos text.isValidUTF8

/-- A path is read as a text exactly if it leads to a file which is the
encoding of that text. -/
theorem readText_ok_iff :
    tree.readText path = .ok text ↔
      ∃ place, tree.LeadsTo path place ∧ tree.occupant? place = some (.file text.toUTF8) := by
  constructor
  · intro h
    obtain ⟨bytes, hBytes, h⟩ := bind_ok h
    obtain ⟨node, hNode, hContent⟩ := bind_ok hBytes
    obtain ⟨place, hLeads, hFound⟩ := resolve_ok_iff.mp hNode
    cases node with
    | directory entries => cases hContent
    | file content =>
        cases hContent
        refine ⟨place, hLeads, occupant?_file_iff.mpr ?_⟩
        split at h
        · next hText =>
            cases h
            rwa [fromUTF8?_eq_some_iff.mp hText] at hFound
        · cases h
  · rintro ⟨place, hLeads, hFile⟩
    have hBytes : tree.readBytes path = .ok text.toUTF8 := by
      rw [readBytes, resolve_ok_iff.mpr ⟨place, hLeads, occupant?_file_iff.mp hFile⟩]
      rfl
    rw [readText, hBytes, ok_bind, fromUTF8?_eq_some_iff.mpr rfl]
    rfl

/-! ### Trees that keep their directories -/

/-- No directory is taken away. -/
def KeepsDirectories (before after : FileTree) : Prop :=
  ∀ place, before.occupant? place = some .directory → after.occupant? place = some .directory

theorem KeepsDirectories.refl (tree : FileTree) : KeepsDirectories tree tree :=
  fun _ h => h

theorem KeepsDirectories.trans {between : FileTree} (h : KeepsDirectories before between)
    (hAfter : KeepsDirectories between after) : KeepsDirectories before after :=
  fun place hDirectory => hAfter place (h place hDirectory)

/-- A change keeps all directories unless it puts something else in the
place of one. -/
theorem Changed.keepsDirectories {now : Option Occupant} (h : Changed before after place now)
    (hWas : before.occupant? place ≠ some .directory ∨ now = some .directory) :
    KeepsDirectories before after := by
  intro other hOther
  by_cases hSame : other = place
  · subst hSame
    rcases hWas with hWas | rfl
    · exact absurd hOther hWas
    · exact h.here
  · rw [h.elsewhere other hSame]
    exact hOther

theorem directory_of_step_ok {segment : String} {next : Place}
    (h : tree.step place segment = .ok next) : tree.occupant? place = some .directory := by
  unfold step at h
  split at h
  · next hDirectory => exact hDirectory
  · cases h

/-- Where directories are kept, a step from one to the next is still
possible. -/
theorem step_of_keepsDirectories {segment : String} {next : Place}
    (hKeeps : KeepsDirectories before after) (h : before.step place segment = .ok next)
    (hNext : before.occupant? next = some .directory) : after.step place segment = .ok next := by
  have hDirectory := directory_of_step_ok h
  unfold step at h ⊢
  rw [hDirectory] at h
  rw [hKeeps place hDirectory]
  dsimp only at h ⊢
  split
  · next hStays => rwa [if_pos hStays] at h
  · next hMoves =>
      rw [if_neg hMoves] at h
      split
      · next hBack => rwa [if_pos hBack] at h
      · next hInto =>
          rw [if_neg hInto] at h
          split at h
          · cases h
            rw [if_pos (by rw [hKeeps _ hNext]; rfl)]
          · cases h

/-- All places on the way to a directory are directories, so that the way is
kept. -/
theorem foldlM_step_of_keepsDirectories {segments : List String} {start : Place}
    (hKeeps : KeepsDirectories before after) (h : segments.foldlM before.step start = .ok place)
    (hPlace : before.occupant? place = some .directory) :
    segments.foldlM after.step start = .ok place := by
  induction segments generalizing start with
  | nil => exact h
  | cons segment rest ih =>
      rw [List.foldlM_cons] at h ⊢
      obtain ⟨next, hNext, hRest⟩ := bind_ok h
      have hDirectory : before.occupant? next = some .directory := by
        cases rest with
        | nil =>
            cases hRest
            exact hPlace
        | cons following later =>
            rw [List.foldlM_cons] at hRest
            obtain ⟨_, hStep, -⟩ := bind_ok hRest
            exact directory_of_step_ok hStep
      rw [step_of_keepsDirectories hKeeps hNext hDirectory]
      exact ih hRest

/-- And so is following segments from directory to directory. -/
theorem follow_of_keepsDirectories {segments : List String} (hKeeps : KeepsDirectories before after)
    (h : before.follow segments = .ok place) (hPlace : before.occupant? place = some .directory) :
    after.follow segments = .ok place :=
  foldlM_step_of_keepsDirectories hKeeps h hPlace

/-- A path that opens a directory opens the same one afterwards. This is
what lets writes in a directory follow one another. -/
theorem Opens.of_keepsDirectories (h : before.Opens path place)
    (hKeeps : KeepsDirectories before after) : after.Opens path place := by
  obtain ⟨⟨segments, hSegments, hFollow⟩, hDirectory⟩ := h
  exact ⟨⟨segments, hSegments, follow_of_keepsDirectories hKeeps hFollow hDirectory⟩,
    hKeeps place hDirectory⟩

theorem LeadsTo.unique {other : Place} (h : tree.LeadsTo path place)
    (hOther : tree.LeadsTo path other) : place = other := by
  obtain ⟨segments, hSegments, hFollow⟩ := h
  obtain ⟨same, hSame, hFollowOther⟩ := hOther
  cases hSegments.symm.trans hSame
  exact Except.ok.inj (hFollow.symm.trans hFollowOther)

end FileTree

end ScriptBindings
