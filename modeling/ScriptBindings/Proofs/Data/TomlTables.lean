import ScriptBindings.Data.TomlTable

/-! Statements taken in one by one. A statement under the last key of a
table changes what that key holds as it would change a table of its own, and
a key that is missing is made on the way. -/
namespace ScriptBindings.Toml

variable {key : String} {path : List String} {entries : Entries} {frame : Entries → Node}

/-! ### The last entry -/

namespace Entries

theorem set_append (h : entries.lookup key = none) (node : Node) (more : Entries) :
    Entries.set key node (entries ++ more) = entries ++ Entries.set key node more := by
  induction entries with
  | nil => rfl
  | cons entry rest ih =>
      rw [List.lookup_cons] at h
      split at h
      · cases h
      · next hKey =>
          have hOther : ¬(entry.1 == key) = true := by
            rw [beq_eq_false_iff_ne] at hKey
            simpa using Ne.symm hKey
          rw [List.cons_append, Entries.set, if_neg hOther, ih h, List.cons_append]

theorem set_new (h : entries.lookup key = none) (node : Node) :
    Entries.set key node entries = entries ++ [(key, node)] := by
  have hSet := set_append h node []
  rwa [List.append_nil] at hSet

theorem set_last (h : entries.lookup key = none) (old new : Node) :
    Entries.set key new (entries ++ [(key, old)]) = entries ++ [(key, new)] := by
  rw [set_append h, Entries.set, if_pos (beq_self_eq_true key)]

theorem lookup_last (h : entries.lookup key = none) (node : Node) :
    (entries ++ [(key, node)]).lookup key = some node := by
  rw [List.lookup_append, h]
  simp

theorem lookup_append_of_ne {other : String} (h : entries.lookup other = none)
    (hOther : other ≠ key) (node : Node) : (entries ++ [(key, node)]).lookup other = none := by
  have hDiffers : (other == key) = false := beq_false_of_ne hOther
  rw [List.lookup_append, h]
  simp [List.lookup_cons, hDiffers]

end Entries

/-! ### Changes within the last entry -/

/-- The nodes that hold a table which statements may go on with: a table
that no dotted key made, or the last of some rows. -/
inductive Frame : (Entries → Node) → Prop
  | table {origin : Origin} (h : origin ≠ .dotted) : Frame (Node.table origin)
  | rows (earlier : List Entries) : Frame fun inner => .rows (earlier ++ [inner])

/-- A change that does not ask whether a table has a header of its own. -/
def Indifferent (change : Origin → Entries → Option Entries) : Prop :=
  ∀ origin, origin ≠ .dotted → change origin = change .header

/-- A change that does not ask how a table came about, made further inside,
does not ask either. -/
theorem Indifferent.within {change : Origin → Entries → Option Entries} (h : Indifferent change)
    (path : List String) : Indifferent (Entries.within false change path) := by
  intro origin hOrigin
  cases path with
  | nil =>
      funext entries
      rw [Entries.within, Entries.within, h origin hOrigin]
  | cons key path =>
      funext entries
      simp only [Entries.within]

theorem indifferent_put (path : List String) (key : String) (value : Data) :
    Indifferent (Entries.put path key value) := by
  intro origin hOrigin
  funext entries
  unfold Entries.put
  cases path with
  | nil =>
      cases origin with
      | header => rfl
      | implied => rfl
      | dotted => exact absurd rfl hOrigin
  | cons first path => simp only [Entries.within]

/-- A change behind the last key is a change of the table it holds. All
statements of a section are taken in this way. -/
theorem within_frame {change : Origin → Entries → Option Entries} (hChange : Indifferent change)
    (hFrame : Frame frame) (hKey : entries.lookup key = none) (path : List String)
    (origin : Origin) (inner : Entries) :
    Entries.within false change (key :: path) origin (entries ++ [(key, frame inner)]) =
      (Entries.within false change path .header inner).map fun inner =>
        entries ++ [(key, frame inner)] := by
  rw [Entries.within, Entries.lookup_last hKey]
  cases hFrame with
  | @table origin hOrigin =>
      simp only [Bool.false_and, Bool.false_eq_true, if_false, hChange.within path origin hOrigin]
      cases Entries.within false change path .header inner <;> simp [Entries.set_last hKey]
  | rows earlier =>
      simp only [List.reverse_append, List.reverse_singleton, List.singleton_append]
      cases Entries.within false change path .header inner <;> simp [Entries.set_last hKey]

/-- A key that is missing is made on the way, with the same outcome as if it
had been there. -/
theorem within_missing (change : Origin → Entries → Option Entries)
    (hKey : entries.lookup key = none) (path : List String) (origin : Origin) :
    Entries.within false change (key :: path) origin entries =
      Entries.within false change (key :: path) origin
        (entries ++ [(key, .table .implied [])]) := by
  rw [Entries.within, Entries.within, hKey, Entries.lookup_last hKey]
  simp [Entries.set_new hKey, Entries.set_last hKey]

/-! ### Statements under a key -/

/-- The statement, where its header is one within the table of a path. -/
def Statement.under (path : List String) : Statement → Statement
  | .entry keys value => .entry keys value
  | .table keys => .table (path ++ keys)
  | .row keys => .row (path ++ keys)

/-- Statements may be moved below one path and then below another. -/
theorem Statement.under_under (outer inner : List String) (s : Statement) :
    (s.under inner).under outer = s.under (outer ++ inner) := by
  cases s <;> simp [under]

theorem map_under_under (outer inner : List String) (statements : List Statement) :
    (statements.map (Statement.under inner)).map (Statement.under outer) =
      statements.map (Statement.under (outer ++ inner)) := by
  rw [List.map_map]
  exact List.map_congr_left fun s _ => s.under_under outer inner

theorem map_under_nil (statements : List Statement) :
    statements.map (Statement.under []) = statements := by
  rw [List.map_congr_left (g := id) fun s _ => by cases s <;> rfl, List.map_id]

/-- A header of a table or row within the table that it stands in. -/
def Statement.Leads : Statement → Prop
  | .entry _ _ => False
  | .table keys | .row keys => keys ≠ []

/-- A statement that changes the table it stands in, and does not open
it. -/
def Statement.Inner : Statement → Prop
  | .entry _ _ => True
  | .table keys | .row keys => keys ≠ []

theorem splitPath_singleton (key : String) : splitPath [key] = some ([], key) := rfl

theorem splitPath_cons (key : String) (hPath : path ≠ []) :
    ∃ before last, splitPath path = some (before, last) ∧
      splitPath (key :: path) = some (key :: before, last) := by
  obtain ⟨first, path, rfl⟩ := List.exists_cons_of_ne_nil hPath
  cases hRest : splitPath path with
  | none => exact ⟨[], first, by simp [splitPath, hRest], by simp [splitPath, hRest]⟩
  | some found =>
      exact ⟨first :: found.1, found.2, by simp [splitPath, hRest], by simp [splitPath, hRest]⟩

/-- Opening a table under the last key is opening it in what that key
holds. -/
theorem openTable_frame (hFrame : Frame frame) (hKey : entries.lookup key = none)
    (path : List String) (last : String) (inner : Entries) :
    Entries.openTable (key :: path) last (entries ++ [(key, frame inner)]) =
      (Entries.openTable path last inner).map fun inner => entries ++ [(key, frame inner)] :=
  within_frame (fun _ _ => rfl) hFrame hKey path .header inner

theorem openRow_frame (hFrame : Frame frame) (hKey : entries.lookup key = none)
    (path : List String) (last : String) (inner : Entries) :
    Entries.openRow (key :: path) last (entries ++ [(key, frame inner)]) =
      (Entries.openRow path last inner).map fun inner => entries ++ [(key, frame inner)] :=
  within_frame (fun _ _ => rfl) hFrame hKey path .header inner

/-- A statement under a key changes the table that the key holds. -/
theorem apply_frame (hFrame : Frame frame) (hKey : entries.lookup key = none) {s : Statement}
    (hInner : s.Inner) (current : List String) (inner : Entries) :
    (s.under [key]).apply (key :: current) (entries ++ [(key, frame inner)]) =
      (s.apply current inner).map fun (current, inner) =>
        (key :: current, entries ++ [(key, frame inner)]) := by
  cases s with
  | entry keys value =>
      simp only [Statement.under, Statement.apply]
      cases splitPath keys with
      | none => rfl
      | some found =>
          have hPut := indifferent_put found.1 found.2 value
          simp only [Option.bind_eq_bind, Option.bind_some,
            within_frame hPut hFrame hKey current .header inner]
          cases Entries.within false (Entries.put found.1 found.2 value) current .header inner <;>
            rfl
  | table keys =>
      obtain ⟨before, last, hSplit, hUnder⟩ := splitPath_cons key hInner
      simp only [Statement.under, List.singleton_append, Statement.apply, hSplit, hUnder,
        Option.bind_eq_bind, Option.bind_some, openTable_frame hFrame hKey]
      cases Entries.openTable before last inner <;> rfl
  | row keys =>
      obtain ⟨before, last, hSplit, hUnder⟩ := splitPath_cons key hInner
      simp only [Statement.under, List.singleton_append, Statement.apply, hSplit, hUnder,
        Option.bind_eq_bind, Option.bind_some, openRow_frame hFrame hKey]
      cases Entries.openRow before last inner <;> rfl

/-- A header that leads through a missing key makes a table for it. -/
theorem apply_under_missing {s : Statement} (hKey : entries.lookup key = none) (hLeads : s.Leads)
    (current other : List String) :
    (s.under [key]).apply current entries =
      (s.under [key]).apply other (entries ++ [(key, .table .implied [])]) := by
  cases s with
  | entry path value => cases hLeads
  | table keys =>
      obtain ⟨before, last, -, hUnder⟩ := splitPath_cons key hLeads
      simp only [Statement.under, List.singleton_append, Statement.apply, hUnder, Entries.openTable,
        Option.bind_eq_bind, Option.bind_some]
      rw [within_missing _ hKey]
  | row keys =>
      obtain ⟨before, last, -, hUnder⟩ := splitPath_cons key hLeads
      simp only [Statement.under, List.singleton_append, Statement.apply, hUnder, Entries.openRow,
        Option.bind_eq_bind, Option.bind_some]
      rw [within_missing _ hKey]

/-! ### Statements of one key -/

theorem apply_entry (hKey : entries.lookup key = none) (value : Data) :
    (Statement.entry [key] value).apply [] entries =
      some ([], entries ++ [(key, .value value)]) := by
  have hPut : Entries.put [] key value .header entries =
      some (entries ++ [(key, .value value)]) := by
    rw [← Entries.set_new hKey]
    simp [Entries.put, Entries.within, hKey]
  simp only [Statement.apply, splitPath_singleton, Option.bind_eq_bind, Option.bind_some,
    Entries.within, hPut]
  rfl

/-- The header of a new table adds it, and what follows belongs to it. -/
theorem apply_table (hKey : entries.lookup key = none) (current : List String) :
    (Statement.table [key]).apply current entries =
      some ([key], entries ++ [(key, .table .header [])]) := by
  have hOpen : Entries.openTable [] key entries = some (entries ++ [(key, .table .header [])]) := by
    rw [← Entries.set_new hKey]
    simp [Entries.openTable, Entries.within, hKey]
  simp only [Statement.apply, splitPath_singleton, Option.bind_eq_bind, Option.bind_some, hOpen]
  rfl

/-- A header adds one more row behind those which there are. -/
theorem apply_row (hKey : entries.lookup key = none) (current : List String)
    (earlier : List Entries) :
    (Statement.row [key]).apply current (entries ++ [(key, .rows earlier)]) =
      some ([key], entries ++ [(key, .rows (earlier ++ [[]]))]) := by
  have hOpen : Entries.openRow [] key (entries ++ [(key, .rows earlier)]) =
      some (entries ++ [(key, .rows (earlier ++ [[]]))]) := by
    simp [Entries.openRow, Entries.within, Entries.lookup_last hKey, Entries.set_last hKey]
  simp only [Statement.apply, splitPath_singleton, Option.bind_eq_bind, Option.bind_some, hOpen]
  rfl

/-- The first row of a key is opened as if the key held no rows before. -/
theorem apply_first_row (hKey : entries.lookup key = none) (current : List String) :
    (Statement.row [key]).apply current entries =
      (Statement.row [key]).apply current (entries ++ [(key, .rows [])]) := by
  have hOpen : Entries.openRow [] key entries = some (entries ++ [(key, .rows [[]])]) := by
    rw [← Entries.set_new hKey]
    simp [Entries.openRow, Entries.within, hKey]
  rw [apply_row hKey]
  simp only [Statement.apply, splitPath_singleton, Option.bind_eq_bind, Option.bind_some, hOpen]
  rfl

/-! ### Runs over statements -/

/-- Take in statements, where the state holds the path of the last
header. -/
def run (state : List String × Entries) (statements : List Statement) :
    Option (List String × Entries) :=
  statements.foldlM (fun state statement => statement.apply state.1 state.2) state

theorem run_nil (state : List String × Entries) : run state [] = some state := rfl

theorem run_cons (state : List String × Entries) (s : Statement) (statements : List Statement) :
    run state (s :: statements) =
      (s.apply state.1 state.2).bind fun next => run next statements := by
  rw [run, List.foldlM_cons]
  rfl

theorem run_append (state : List String × Entries) (first second : List Statement) :
    run state (first ++ second) = (run state first).bind fun next => run next second := by
  rw [run, List.foldlM_append]
  rfl

/-- A run below the last key is one within what that key holds. This is what
carries the induction over nested tables. -/
theorem run_frame (hFrame : Frame frame) (hKey : entries.lookup key = none)
    {statements : List Statement} (hInner : ∀ s ∈ statements, s.Inner) :
    ∀ current inner,
      run (key :: current, entries ++ [(key, frame inner)]) (statements.map (.under [key])) =
        (run (current, inner) statements).map fun (current, inner) =>
          (key :: current, entries ++ [(key, frame inner)]) := by
  induction statements with
  | nil => exact fun current inner => rfl
  | cons s statements ih =>
      intro current inner
      rw [List.forall_mem_cons] at hInner
      rw [List.map_cons, run_cons, run_cons, apply_frame hFrame hKey hInner.1]
      cases s.apply current inner with
      | none => rfl
      | some next => exact ih hInner.2 next.1 next.2

end ScriptBindings.Toml
