import Mathlib.Data.List.Perm.Basic
import ScriptBindings.Proofs.Data.Tabular
import ScriptBindings.Proofs.Repetitions
import ScriptBindings.Settings.Reader
import ScriptBindings.Settings.Writer

/-! Settings read from what they are written as. The reader does not depend
on the order of fields, so each group of settings is read back from every
rearrangement of its data. -/
namespace ScriptBindings

/-! ### Tables made of their entries -/

theorem SortedEntries.perm_insert {α : Type} {key : String} {value : α}
    {entries : List (String × α)} (h : key ∉ entries.map (·.1)) :
    (SortedEntries.insert key value entries).Perm ((key, value) :: entries) := by
  induction entries with
  | nil => exact .refl _
  | cons entry rest ih =>
      rw [List.map_cons, List.mem_cons, not_or] at h
      rw [SortedEntries.insert]
      split
      · exact .refl _
      · split
        · exact ((ih h.2).cons entry).trans (.swap (key, value) entry rest)
        · next hNotLower hNotHigher =>
            exact absurd (String.le_antisymm (String.not_lt.mp hNotHigher)
              (String.not_lt.mp hNotLower)) h.1

/-- Entries with different keys may be put into a table in any order, and
none of them is lost. -/
theorem OverrideTable.perm_foldl_insert (entries : List (String × TypeOverride)) :
    ∀ table : OverrideTable, ((table.entries ++ entries).map (·.1)).Nodup →
      (entries.foldl (fun table entry => table.insert entry.1 entry.2) table).entries.Perm
        (table.entries ++ entries) := by
  induction entries with
  | nil =>
      intro table _
      rw [List.append_nil]
      exact .refl _
  | cons entry entries ih =>
      intro table h
      have hOrder : (table.entries ++ entry :: entries).Perm (entry :: table.entries ++ entries) :=
        List.perm_middle
      have hKeys : ((entry :: table.entries ++ entries).map (·.1)).Nodup :=
        (hOrder.map _).nodup_iff.mp h
      have hNew : entry.1 ∉ table.entries.map (·.1) := by
        rw [List.cons_append, List.map_cons, List.nodup_cons, List.map_append, List.mem_append,
          not_or] at hKeys
        exact hKeys.1.1
      have hInsert : ((table.insert entry.1 entry.2).entries ++ entries).Perm
          (entry :: table.entries ++ entries) :=
        (SortedEntries.perm_insert hNew).append_right entries
      exact (ih _ ((hInsert.map _).nodup_iff.mpr hKeys)).trans (hInsert.trans hOrder.symm)

/-- A table is made again of its entries in any order. -/
theorem OverrideTable.ofList_of_perm {entries : List (String × TypeOverride)}
    {table : OverrideTable} (h : table.entries.Perm entries) : OverrideTable.ofList entries = table := by
  have hKeys : (table.entries.map (·.1)).Nodup := by
    refine List.pairwise_map.mpr (List.Pairwise.imp ?_ table.sorted)
    intro a b hLess hSame
    rw [hSame] at hLess
    exact String.lt_irrefl _ hLess
  have hMade : (OverrideTable.ofList entries).entries.Perm entries :=
    OverrideTable.perm_foldl_insert entries .empty ((h.map _).nodup_iff.mp hKeys)
  have hEntries : (OverrideTable.ofList entries).entries = table.entries :=
    List.Perm.eq_of_pairwise
      (fun _ _ _ _ hLess hGreater => absurd (String.lt_trans hLess hGreater) (String.lt_irrefl _))
      (OverrideTable.ofList entries).sorted table.sorted (hMade.trans h.symm)
  exact OverrideTable.mk.injEq .. |>.mpr hEntries

namespace Settings

open Data

variable {α : Type} {fields middle others : List (String × Data)} {name : String} {d value : Data}
  {format : Format} {surplus : Bool}

/-- However its fields are ordered, the data is read as this. -/
def ReadsBack (read : Data → Option α) (d : Data) (a : α) : Prop :=
  ∀ other, Rearranged d other → read other = some a

/-! ### Fields of a group -/

/-- The same names are there, with values that differ in the order of fields
only. -/
def SameFields (fields others : List (String × Data)) : Prop :=
  ∀ name, Option.Rel Rearranged (fields.lookup name) (others.lookup name)

/-- With keys that differ the order of fields does not matter to looking one
up. -/
theorem lookup_of_perm (hPerm : fields.Perm middle) (hKeys : (fields.map (·.1)).Nodup)
    (name : String) : fields.lookup name = middle.lookup name := by
  have hMiddle : (middle.map (·.1)).Nodup := (hPerm.map _).nodup_iff.mp hKeys
  refine Option.ext fun value => ?_
  rw [lookup_eq_some_iff_mem hKeys, lookup_eq_some_iff_mem hMiddle, hPerm.mem_iff]

/-- Looking a field up after values were rearranged finds the rearranged
value under the same key. -/
theorem lookup_rearranged (h : List.Forall₂ RearrangedField middle others) (name : String) :
    Option.Rel Rearranged (middle.lookup name) (others.lookup name) := by
  induction h with
  | nil => exact .none
  | @cons a b middle others hField _ ih =>
      rw [List.lookup_cons, List.lookup_cons, hField.1]
      split
      · exact .some hField.2
      · exact ih

/-- A record is taken as a group in any order of its fields. -/
theorem exists_group? (names : List String) (hNames : ∀ field ∈ fields, field.1 ∈ names)
    (hKeys : (fields.map (·.1)).Nodup) (surplus : Bool) (h : Rearranged (.record fields) d) :
    ∃ others, group? surplus names d = some others ∧ SameFields fields others := by
  obtain ⟨middle, others, rfl, hPerm, hOthers⟩ := rearranged_record h
  have hSame : middle.map (·.1) = others.map (·.1) := (rearrangedFields_iff.mp hOthers).1
  have hPermKeys : (fields.map (·.1)).Perm (others.map (·.1)) := hSame ▸ hPerm.map _
  refine ⟨others, ?_, fun name => ?_⟩
  · have hAll : ((others.map (·.1)).all names.contains) = true := by
      rw [List.all_eq_true]
      intro key hKey
      obtain ⟨field, hField, rfl⟩ := List.mem_map.mp (hPermKeys.mem_iff.mpr hKey)
      simpa using hNames field hField
    rw [group?]
    simp only [hAll, hPermKeys.nodup_iff.mp hKeys, decide_true, Bool.and_self, if_true]
  · rw [lookup_of_perm hPerm hKeys]
    exact lookup_rearranged hOthers name

/-- A field that has to be there is read back, wherever it stands among the
others. -/
theorem SameFields.required (h : SameFields fields others) {read : Data → Option α} {a : α}
    (name : String) (hValue : fields.lookup name = some value) (hRead : ReadsBack read value a) :
    required others name read = some a := by
  have hRel := h name
  rw [hValue] at hRel
  rw [Settings.required]
  cases hOther : others.lookup name with
  | none =>
      rw [hOther] at hRel
      cases hRel
  | some other =>
      rw [hOther] at hRel
      exact hRead other (Option.rel_some_some.mp hRel)

theorem SameFields.field (h : SameFields fields others) {read : Data → Option α} {a default : α}
    (name : String) (hValue : fields.lookup name = some value) (hRead : ReadsBack read value a) :
    field others name default read = some a := by
  have hRequired := h.required name hValue hRead
  rw [Settings.required] at hRequired
  rw [Settings.field]
  cases hOther : others.lookup name with
  | none =>
      rw [hOther] at hRequired
      cases hRequired
  | some other =>
      rw [hOther] at hRequired
      exact hRequired

/-- A field that was left out is read as its default. So leaving out what
equals the default loses nothing. -/
theorem SameFields.absent (h : SameFields fields others) {read : Data → Option α} {default : α}
    (hValue : fields.lookup name = none) :
    Settings.field others name default read = some default := by
  have hRel := h name
  rw [hValue] at hRel
  rw [Settings.field]
  cases hOther : others.lookup name with
  | none => rfl
  | some other =>
      rw [hOther] at hRel
      cases hRel

/-! ### Single values and lists -/

theorem readsBack_text (value : String) : ReadsBack Data.text? (.text value) value := by
  intro other h
  rw [rearranged_text h]
  rfl

theorem readsBack_flag (value : Bool) : ReadsBack Data.flag? (.flag value) value := by
  intro other h
  rw [rearranged_flag h]
  rfl

/-- Reading a list succeeds exactly if each of its items is read. -/
theorem mapM_eq_some_iff {β : Type} {f : α → Option β} {xs : List α} {ys : List β} :
    xs.mapM f = some ys ↔ List.Forall₂ (fun x y => f x = some y) xs ys := by
  induction xs generalizing ys with
  | nil => simp [eq_comm]
  | cons x xs ih =>
      rw [List.mapM_cons]
      constructor
      · intro h
        obtain ⟨y, hFirst, h⟩ := Option.bind_eq_some_iff.mp h
        obtain ⟨rest, hRest, h⟩ := Option.bind_eq_some_iff.mp h
        cases h
        exact .cons hFirst (ih.mp hRest)
      · intro h
        cases h with
        | cons hFirst hRest => simp [hFirst, ih.mpr hRest]

/-- A list is read back if its items are, in the same order. The order of a
list is kept by both notations. -/
theorem readsBack_list {read : Data → Option α} {write : α → Data} {values : List α}
    (h : ∀ a ∈ values, ReadsBack read (write a) a) :
    ReadsBack (Data.listOf? read) (.list (values.map write)) values := by
  intro other hOther
  obtain ⟨others, rfl, hItems⟩ := rearranged_list hOther
  rw [List.forall₂_map_left_iff] at hItems
  have hRead : others.mapM read = some values := by
    refine mapM_eq_some_iff.mpr (List.Forall₂.flip ?_)
    exact ((List.forall₂_and_left _ _).mpr ⟨h, hItems⟩).imp fun a other hBoth =>
      hBoth.1 other hBoth.2
  rw [Data.listOf?, Data.list?, Option.bind_some, hRead]

/-- So are lists of texts, of which most of the settings are made. -/
theorem readsBack_texts (values : List String) :
    ReadsBack (Data.listOf? Data.text?) (.texts values) values :=
  readsBack_list fun value _ => readsBack_text value

theorem readsBack_optional (value : String) :
    ReadsBack (Data.optional? Data.text?) (.text value) (some value) := by
  intro other h
  rw [rearranged_text h]
  rfl

/-- A field for a value that may be missing is there exactly if the value
is. -/
theorem lookup_optionalField (name : String) (value : Option String) :
    (optionalField name value).lookup name = value.map .text := by
  cases value with
  | none => rfl
  | some text => simp [optionalField]

/-- A value that may be absent is read back, from nothing if it is. No
placeholder is written for it. -/
theorem SameFields.optional (h : SameFields fields others) {value : Option String}
    (name : String) (hValue : fields.lookup name = value.map .text) :
    Settings.field others name none (Data.optional? Data.text?) = some value := by
  cases value with
  | none => exact h.absent hValue
  | some text => exact h.field name hValue (readsBack_optional text)

/-! ### Groups of settings -/

/-- A casing is read back from its name in either of the two formats,
although these compare names differently. -/
theorem readsBack_casing (format : Format) (casing : Casing) :
    ReadsBack (casing? format) (.text casing.label) casing := by
  intro other h
  rw [rearranged_text h, casing?, Casing.ofLabel?_label]

/-- A pattern is read back from its text and its casing, both of which may
be left out. -/
theorem readsBack_pattern (format : Format) (spec : PatternSpec) :
    ReadsBack (pattern? format) (.record (patternFields spec)) spec := by
  intro other h
  obtain ⟨others, hGroup, hFields⟩ := exists_group? ["pattern", "casing"]
    (by simp [patternFields]) (by simp [patternFields]) format.allowsSurplus h
  simp only [pattern?, hGroup, Option.bind_eq_bind, Option.bind_some,
    hFields.required "pattern" rfl (readsBack_text _),
    hFields.field "casing" rfl (readsBack_casing format _)]
  rfl

/-- The patterns are read back one by one, each under its own key. -/
theorem readsBack_namePatterns (format : Format) (patterns : NamePatterns) :
    ReadsBack (namePatterns? format) (.record (namePatternFields patterns)) patterns := by
  intro other h
  have hPattern := readsBack_pattern format
  obtain ⟨others, hGroup, hFields⟩ := exists_group?
    ["interface", "runtime_class", "module", "preload", "method", "parameter"]
    (by simp [namePatternFields]) (by simp [namePatternFields]) format.allowsSurplus h
  simp only [namePatterns?, hGroup, Option.bind_eq_bind, Option.bind_some,
    hFields.field "interface" rfl (hPattern _), hFields.field "runtime_class" rfl (hPattern _),
    hFields.field "module" rfl (hPattern _), hFields.field "preload" rfl (hPattern _),
    hFields.field "method" rfl (hPattern _), hFields.field "parameter" rfl (hPattern _)]
  rfl

theorem readsBack_actionNames (names : ActionNames) :
    ReadsBack (actionNames? format) (.record (actionNameFields names)) names := by
  intro other h
  obtain ⟨others, hGroup, hFields⟩ := exists_group? ["sync", "trysync", "async"]
    (by simp [actionNameFields]) (by simp [actionNameFields]) format.allowsSurplus h
  simp only [actionNames?, hGroup, Option.bind_eq_bind, Option.bind_some,
    hFields.field "sync" rfl (readsBack_text _), hFields.field "trysync" rfl (readsBack_text _),
    hFields.field "async" rfl (readsBack_text _)]
  rfl

/-- The settings of the invocation are read back with the patterns and names
within them. -/
theorem readsBack_invocation (format : Format) (s : InvocationSettings) :
    ReadsBack (invocation? format) (.record (invocationFields s)) s := by
  intro other h
  obtain ⟨others, hGroup, hFields⟩ := exists_group?
    ["sync_enabled", "trysync_enabled", "async_enabled", "promise_only_async",
      "promise_append_async", "action_names"]
    (by simp [invocationFields]) (by simp [invocationFields]) format.allowsSurplus h
  simp only [invocation?, hGroup, Option.bind_eq_bind, Option.bind_some,
    hFields.field "sync_enabled" rfl (readsBack_flag _),
    hFields.field "trysync_enabled" rfl (readsBack_flag _),
    hFields.field "async_enabled" rfl (readsBack_flag _),
    hFields.field "promise_only_async" rfl (readsBack_flag _),
    hFields.field "promise_append_async" rfl (readsBack_flag _),
    hFields.field "action_names" rfl (readsBack_actionNames _)]
  rfl

theorem readsBack_output (format : Format) (output : OutputSettings) :
    ReadsBack (output? format) (.record (outputFields output)) output := by
  intro other h
  obtain ⟨others, hGroup, hFields⟩ := exists_group? ["directory", "file_extension"]
    (by simp [outputFields]) (by simp [outputFields]) format.allowsSurplus h
  simp only [output?, hGroup, Option.bind_eq_bind, Option.bind_some,
    hFields.field "directory" rfl (readsBack_text _),
    hFields.field "file_extension" rfl (readsBack_text _)]
  rfl

/-- An input is read back from either of its layouts. The short one stands
for an input without excludes. -/
theorem readsBack_inputRoot (format : Format) (input : InputRoot) :
    ReadsBack (inputRoot? format) (inputRootData input) input := by
  intro other h
  obtain ⟨others, hGroup, hFields⟩ := exists_group? ["include", "excludes", "module_path"]
    (by cases input.modulePath <;> simp [optionalField])
    (by cases input.modulePath <;> simp [optionalField]) format.allowsSurplus h
  have hPath := hFields.optional "module_path" (lookup_optionalField "module_path" input.modulePath)
  simp only [inputRoot?, hGroup, Option.bind_eq_bind, Option.bind_some,
    hFields.required "include" rfl (readsBack_text _),
    hFields.field "excludes" rfl (readsBack_texts _), hPath]
  rfl

theorem readsBack_overrideGeneric (generic : OverrideGeneric) :
    ReadsBack overrideGeneric? (overrideGenericData generic) generic := by
  intro other h
  obtain ⟨others, hGroup, hFields⟩ := exists_group? ["name", "constraint"]
    (by cases generic.constraint <;> simp [optionalField])
    (by cases generic.constraint <;> simp [optionalField]) false h
  have hConstraint :=
    hFields.optional "constraint" (lookup_optionalField "constraint" generic.constraint)
  simp only [overrideGeneric?, hGroup, Option.bind_eq_bind, Option.bind_some,
    hFields.required "name" rfl (readsBack_text _), hConstraint]
  rfl

/-- An override is read back from either of its layouts. The short one
stands for an override without generics. -/
theorem readsBack_override (entry : TypeOverride) :
    ReadsBack override? (overrideData entry) entry := by
  intro other h
  cases entry with
  | plain host =>
      rw [overrideData] at h
      rw [rearranged_text h, override?]
  | generic host generics =>
      obtain ⟨others, hGroup, hFields⟩ := exists_group? ["type", "generics"]
        (by simp) (by simp) false h
      obtain ⟨middle, record, rfl, -, -⟩ := rearranged_record h
      simp only [override?, hGroup, Option.bind_eq_bind, Option.bind_some,
        hFields.required "type" rfl (readsBack_text _),
        hFields.field "generics" rfl
          (readsBack_list fun generic _ => readsBack_overrideGeneric generic)]
      rfl

/-! ### The override table -/

/-- A rearrangement of values that were written comes from a rearrangement
of the values themselves. -/
theorem exists_perm_of_perm_map {β : Type} {f : α → β} {xs : List α} {ys : List β}
    (h : (xs.map f).Perm ys) : ∃ zs, xs.Perm zs ∧ ys = zs.map f := by
  have hMap : List.Forall₂ (fun x y => f x = y) xs (xs.map f) :=
    List.forall₂_map_right_iff.mpr (List.forall₂_same.mpr fun x _ => rfl)
  have hComp : Relation.Comp (List.Forall₂ fun x y => f x = y) List.Perm xs ys := ⟨_, hMap, h⟩
  rw [List.forall₂_comp_perm_eq_perm_comp_forall₂] at hComp
  obtain ⟨zs, hPerm, hZs⟩ := hComp
  have hSame : List.Forall₂ (· = ·) (zs.map f) ys := List.forall₂_map_left_iff.mpr hZs
  rw [List.forall₂_eq_eq_eq] at hSame
  exact ⟨zs, hPerm, hSame.symm⟩

/-- The table of overrides is read back whatever the order of its fields,
because the table is sorted by its keys. -/
theorem readsBack_overrides (table : OverrideTable) :
    ReadsBack overrides? (.record (overrideFields table)) table := by
  intro other h
  obtain ⟨middle, others, rfl, hPerm, hOthers⟩ := rearranged_record h
  obtain ⟨entries, hEntries, rfl⟩ := exists_perm_of_perm_map hPerm
  rw [overrides?]
  refine Option.bind_eq_some_iff.mpr ⟨entries, mapM_eq_some_iff.mpr (List.Forall₂.flip ?_), ?_⟩
  · refine (List.forall₂_map_left_iff.mp hOthers).imp fun entry field hField => ?_
    obtain ⟨key, value⟩ := field
    obtain ⟨rfl, hValue⟩ := hField
    change (override? value).map (fun read => (entry.1, read)) = some entry
    rw [readsBack_override entry.2 value hValue]
    rfl
  · rw [← OverrideTable.ofList_of_perm hEntries]
    rfl

/-! ### All settings -/

/-- All settings together are read back from their data, in either of the
formats. -/
theorem readsBack_settings (format : Format) (s : Settings) :
    ReadsBack (ofData? format) s.toData s := by
  intro other h
  obtain ⟨others, hGroup, hFields⟩ := exists_group? names
    (by simp [fields, names]) (by simp [fields]) format.allowsSurplus h
  simp only [ofData?, hGroup, Option.bind_eq_bind, Option.bind_some,
    hFields.field "namespace" rfl (readsBack_text _),
    hFields.field "using_statements" rfl (readsBack_texts _),
    hFields.field "unknown_type_fallback" rfl (readsBack_text _),
    hFields.field "type_overrides" rfl (readsBack_overrides _),
    hFields.field "name_patterns" rfl (readsBack_namePatterns format _),
    hFields.field "invoke" rfl (readsBack_invocation format _),
    hFields.field "preload_all_modules_name" rfl (readsBack_text _),
    hFields.field "service_extension" rfl (readsBack_flag _),
    hFields.field "input" rfl (readsBack_list fun input _ => readsBack_inputRoot format input),
    hFields.field "output" rfl (readsBack_output format _)]
  rfl

end Settings

end ScriptBindings
