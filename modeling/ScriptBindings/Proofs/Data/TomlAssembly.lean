import ScriptBindings.Proofs.Data.TomlStatements

/-! The statements of a record put together again. A section builds the same
nodes under its key as a document of its own would, and so the record comes
back, but for the order of its fields. -/
namespace ScriptBindings.Toml

open Data

variable {key : String} {entries : Entries} {frame : Entries → Node}
  {fields rest : List (String × Data)} {depth : Nat}

/-! ### Statements of a record -/

/-- The statements of a table may be taken in under any key above it. -/
theorem inner_fieldStatements (fields : List (String × Data)) :
    ∀ s ∈ fieldStatements fields, s.Inner := by
  induction fields with
  | nil => exact fun s h => absurd h List.not_mem_nil
  | cons field fields ih =>
      obtain ⟨key, value⟩ := field
      intro s hs
      rw [fieldStatements, List.mem_append] at hs
      rcases hs with hSection | hRest
      · split at hSection
        · obtain ⟨inner, -, rfl⟩ := List.mem_map.mp hSection
          cases inner <;> simp [Statement.under, Statement.Inner]
        · cases hSection
      · exact ih s hRest

/-- So may those of a document, which is what lets one table be built within
another. -/
theorem inner_documentStatements (fields : List (String × Data)) :
    ∀ s ∈ documentStatements fields, s.Inner := by
  intro s hs
  rcases List.mem_append.mp hs with hEntry | hField
  · obtain ⟨field, -, rfl⟩ := List.mem_map.mp hEntry
    trivial
  · exact inner_fieldStatements fields s hField

/-- The fields that are written under headers. -/
def sectionFields (fields : List (String × Data)) : List (String × Data) :=
  fields.filter fun (_, value) => isSection value

/-- A field with a plain value is written among the entries and not as a
section of its own. -/
theorem sectionFields_plain {value : Data} (h : value.Plain) (key : String)
    (rest : List (String × Data)) : sectionFields ((key, value) :: rest) = sectionFields rest := by
  simp [sectionFields, isSection_plain h]

theorem sectionFields_section {value : Data} (h : isSection value = true) (key : String)
    (rest : List (String × Data)) :
    sectionFields ((key, value) :: rest) = (key, value) :: sectionFields rest := by
  simp [sectionFields, h]

/-- Every field is written, either on a line of its own or under headers. -/
theorem perm_fields (h : Tabular depth fields) :
    fields.Perm (plainFields fields ++ sectionFields fields) := by
  induction h with
  | nil depth => exact .refl _
  | @plain depth key value rest hKey hValue hRest ih =>
      rw [plainFields_plain hValue, sectionFields_plain hValue]
      exact ih.cons _
  | @table depth key fields rest hKey hFields hRest _ ih =>
      rw [plainFields_section (isSection_record fields),
        sectionFields_section (isSection_record fields)]
      exact (ih.cons _).trans List.perm_middle.symm
  | @rows depth key first others rest hKey hTables hRest _ ih =>
      rw [plainFields_section (isSection_rows first others),
        sectionFields_section (isSection_rows first others)]
      exact (ih.cons _).trans List.perm_middle.symm

/-- The keys of a table differ, as otherwise one would be set twice. -/
theorem nodup_keys (h : Tabular depth fields) : (fields.map (·.1)).Nodup := by
  induction h with
  | nil depth => exact List.nodup_nil
  | plain hKey _ _ ih => exact List.nodup_cons.mpr ⟨hKey, ih⟩
  | table hKey _ _ _ ih => exact List.nodup_cons.mpr ⟨hKey, ih⟩
  | rows hKey _ _ _ ih => exact List.nodup_cons.mpr ⟨hKey, ih⟩

/-- The nodes of values on lines of their own. -/
def valueNodes (fields : List (String × Data)) : Entries :=
  fields.map fun (key, value) => (key, .value value)

/-- Entries with new keys are added at the end of a table in their order. -/
theorem run_entries (hKeys : (fields.map (·.1)).Nodup)
    (hNew : ∀ field ∈ fields, entries.lookup field.1 = none) :
    run ([], entries) (fields.map fun (key, value) => .entry [key] value) =
      some ([], entries ++ valueNodes fields) := by
  induction fields generalizing entries with
  | nil => simp [run_nil, valueNodes]
  | cons field fields ih =>
      rw [List.map_cons, List.nodup_cons] at hKeys
      rw [List.forall_mem_cons] at hNew
      have hRest : ∀ other ∈ fields,
          (entries ++ [(field.1, Node.value field.2)]).lookup other.1 = none := by
        intro other hOther
        refine Entries.lookup_append_of_ne (hNew.2 other hOther) ?_ _
        intro hSame
        exact hKeys.1 (hSame ▸ List.mem_map_of_mem hOther)
      rw [List.map_cons, run_cons, apply_entry hNew.1, Option.bind_some, ih hKeys.2 hRest,
        List.append_assoc]
      rfl

/-- Reading the fields off the nodes of a table goes node by node. -/
theorem fieldsOf_append (first second : Entries) :
    fieldsOf (first ++ second) = fieldsOf first ++ fieldsOf second := by
  induction first with
  | nil => rfl
  | cons entry first ih => rw [List.cons_append, fieldsOf, fieldsOf, ih, List.cons_append]

/-- Nodes that hold plain values give the fields back that they were made
of. -/
theorem fieldsOf_valueNodes (fields : List (String × Data)) :
    fieldsOf (valueNodes fields) = fields := by
  induction fields with
  | nil => rfl
  | cons field fields ih =>
      rw [valueNodes, List.map_cons, fieldsOf, ← valueNodes, ih, Node.data]

/-! ### Building a record -/

/-- From entries without these keys on, the statements of the sections build
nodes of their own behind the entries. -/
def Builds (fields : List (String × Data)) : Prop :=
  ∀ current (entries : Entries), (∀ field ∈ sectionFields fields, entries.lookup field.1 = none) →
    ∃ last nodes, run (current, entries) (fieldStatements fields) = some (last, entries ++ nodes) ∧
      List.Forall₂ RearrangedField (sectionFields fields) (fieldsOf nodes)

/-- As a document, a record is built from nothing. -/
theorem exists_run_document (h : Tabular depth fields) (hBuilds : Builds fields) :
    ∃ last nodes, run ([], []) (documentStatements fields) = some (last, nodes) ∧
      Rearranged (.record fields) (.record (fieldsOf nodes)) := by
  have hKeys : (plainFields fields ++ sectionFields fields |>.map (·.1)).Nodup :=
    ((perm_fields h).map _).nodup_iff.mp (nodup_keys h)
  rw [List.map_append, List.nodup_append] at hKeys
  have hEntries : run ([], []) (entryStatements fields) =
      some ([], valueNodes (plainFields fields)) :=
    run_entries hKeys.1 fun _ _ => rfl
  have hNew : ∀ field ∈ sectionFields fields,
      (valueNodes (plainFields fields)).lookup field.1 = none := by
    intro field hField
    rw [List.lookup_eq_none_iff]
    intro entry hEntry
    obtain ⟨plain, hPlain, rfl⟩ := List.mem_map.mp hEntry
    exact bne_iff_ne.mpr (Ne.symm
      (hKeys.2.2 _ (List.mem_map_of_mem hPlain) _ (List.mem_map_of_mem hField)))
  obtain ⟨last, nodes, hRun, hNodes⟩ := hBuilds [] _ hNew
  refine ⟨last, valueNodes (plainFields fields) ++ nodes, ?_, ?_⟩
  · rw [documentStatements, run_append, hEntries, Option.bind_some, hRun]
  · rw [fieldsOf_append, fieldsOf_valueNodes]
    refine .of_fields (perm_fields h) (List.rel_append ?_ hNodes)
    exact List.forall₂_same.mpr fun field _ => ⟨rfl, .refl field.2⟩

/-- A plain field adds no section, so that the others build the table. -/
theorem builds_plain {value : Data} (h : value.Plain) (hRest : Builds rest) :
    Builds ((key, value) :: rest) := by
  intro current entries hNew
  rw [sectionFields_plain h] at hNew ⊢
  rw [fieldStatements, isSection_plain h]
  exact hRest current entries hNew

/-- A section that builds a node behind the entries, and the fields behind
it. -/
theorem builds_section {value : Data} (h : isSection value = true) (hKey : key ∉ rest.map (·.1))
    (hValue : ∀ current (entries : Entries), entries.lookup key = none → ∃ last node,
      run (current, entries) ((sectionStatements value).map (.under [key])) =
        some (last, entries ++ [(key, node)]) ∧ Rearranged value node.data)
    (hRest : Builds rest) : Builds ((key, value) :: rest) := by
  intro current entries hNew
  rw [sectionFields_section h] at hNew ⊢
  rw [List.forall_mem_cons] at hNew
  obtain ⟨middle, node, hRun, hNode⟩ := hValue current entries hNew.1
  have hLater : ∀ field ∈ sectionFields rest,
      (entries ++ [(key, node)]).lookup field.1 = none := by
    intro field hField
    refine Entries.lookup_append_of_ne (hNew.2 field hField) ?_ node
    intro hSame
    exact hKey (hSame ▸ List.mem_map_of_mem (List.mem_of_mem_filter hField))
  obtain ⟨last, nodes, hRunRest, hNodes⟩ := hRest middle _ hLater
  refine ⟨last, (key, node) :: nodes, ?_, .cons ⟨rfl, hNode⟩ hNodes⟩
  rw [fieldStatements, if_pos h, run_append, hRun, Option.bind_some, hRunRest, List.append_assoc]
  rfl

/-- A record without values of its own begins with a header of its
tables. -/
theorem exists_leading (h : Tabular depth fields) (hOwn : plainFields fields = [])
    (hNil : fields ≠ []) : ∃ s behind, fieldStatements fields = s :: behind ∧ s.Leads := by
  induction h with
  | nil depth => exact absurd rfl hNil
  | @plain depth key value rest hKey hValue hRest ih =>
      rw [plainFields_plain hValue] at hOwn
      cases hOwn
  | @table depth key fields rest hKey hFields hRest ih _ =>
      rw [fieldStatements, if_pos (isSection_record fields), sectionStatements]
      by_cases hHidden : hidesHeader fields
      · obtain ⟨hOwn, hFound⟩ := hidesHeader_iff.mp hHidden
        obtain ⟨s, behind, hFirst, hLeads⟩ := ih hOwn hFound
        refine ⟨s.under [key], _, by rw [if_pos hHidden, hFirst]; rfl, ?_⟩
        cases s <;> simp_all [Statement.under, Statement.Leads]
      · rw [if_neg hHidden]
        exact ⟨.table [key], _, rfl, List.cons_ne_nil key []⟩
  | @rows depth key first others rest hKey hTables hRest _ _ =>
      rw [fieldStatements, if_pos (isSection_rows first others), sectionStatements, List.map_cons,
        rowStatements]
      exact ⟨.row [key], _, rfl, List.cons_ne_nil key []⟩

/-- Under the last key, a record is built in the table that the key
holds. -/
theorem exists_run_framed (h : Tabular depth fields) (hBuilds : Builds fields)
    (hKey : entries.lookup key = none) (hFrame : Frame frame) :
    ∃ last nodes, run ([key], entries ++ [(key, frame [])])
        ((documentStatements fields).map (.under [key])) =
          some (last, entries ++ [(key, frame nodes)]) ∧
      Rearranged (.record fields) (.record (fieldsOf nodes)) := by
  obtain ⟨last, nodes, hRun, hNodes⟩ := exists_run_document h hBuilds
  have hFramed := run_frame hFrame hKey (inner_documentStatements fields) [] []
  rw [hRun] at hFramed
  exact ⟨key :: last, nodes, hFramed, hNodes⟩

/-- The header and the entries of a table build it under a key that is new,
and the run goes on from there. -/
theorem exists_run_table (h : Tabular depth fields) (hBuilds : Builds fields)
    (current : List String) (hKey : entries.lookup key = none) :
    ∃ last node, run (current, entries) ((sectionStatements (.record fields)).map (.under [key])) =
      some (last, entries ++ [(key, node)]) ∧ Rearranged (.record fields) node.data := by
  rw [sectionStatements]
  by_cases hHidden : hidesHeader fields
  -- The first header within leads through the key, and makes the table on the way.
  · obtain ⟨hOwn, hFound⟩ := hidesHeader_iff.mp hHidden
    have hImplied : Origin.implied ≠ .dotted := by decide
    obtain ⟨last, nodes, hRun, hNodes⟩ := exists_run_framed h hBuilds hKey (.table hImplied)
    obtain ⟨s, behind, hFirst, hLeads⟩ := exists_leading h hOwn hFound
    have hDocument : documentStatements fields = s :: behind := by
      rw [documentStatements, entryStatements, hOwn, List.map_nil, List.nil_append, hFirst]
    refine ⟨last, .table .implied nodes, ?_, hNodes⟩
    rw [if_pos hHidden, List.nil_append, hFirst, ← hRun, hDocument, List.map_cons, run_cons,
      run_cons, apply_under_missing hKey hLeads current [key]]
  · have hHeader : Origin.header ≠ .dotted := by decide
    obtain ⟨last, nodes, hRun, hNodes⟩ := exists_run_framed h hBuilds hKey (.table hHeader)
    have hOpen : ((Statement.table []).under [key]).apply current entries =
        some ([key], entries ++ [(key, .table .header [])]) := apply_table hKey current
    refine ⟨last, .table .header nodes, ?_, hNodes⟩
    rw [if_neg hHidden, List.cons_append, ← documentStatements, List.map_cons, run_cons, hOpen,
      Option.bind_some, hRun]

/-- Each row is added behind the rows before it, under the same key. -/
theorem exists_run_rows {tables : List (List (String × Data))}
    (h : ∀ fields ∈ tables, Tabular depth fields) (hBuilds : ∀ fields ∈ tables, Builds fields)
    (hKey : entries.lookup key = none) :
    ∀ (current : List String) (earlier : List Entries), ∃ last made,
      run (current, entries ++ [(key, .rows earlier)])
          ((rowStatements (tables.map .record)).map (.under [key])) =
        some (last, entries ++ [(key, .rows (earlier ++ made))]) ∧
      List.Forall₂ Rearranged (tables.map .record) (recordsOf made) := by
  induction tables with
  | nil => exact fun current earlier => ⟨current, [], by simp [rowStatements, run_nil], .nil⟩
  | cons fields tables ih =>
      intro current earlier
      rw [List.forall_mem_cons] at h hBuilds
      obtain ⟨middle, nodes, hRun, hNodes⟩ :=
        exists_run_framed h.1 hBuilds.1 hKey (.rows earlier)
      obtain ⟨last, made, hRest, hMade⟩ := ih h.2 hBuilds.2 middle (earlier ++ [nodes])
      have hOpen : ((Statement.row []).under [key]).apply current
          (entries ++ [(key, .rows earlier)]) =
            some ([key], entries ++ [(key, .rows (earlier ++ [[]]))]) :=
        apply_row hKey current earlier
      refine ⟨last, nodes :: made, ?_, .cons hNodes hMade⟩
      rw [List.map_cons, rowStatements, List.append_assoc, List.cons_append, List.map_cons,
        run_cons, hOpen, Option.bind_some, ← List.append_assoc, List.map_append, run_append,
        ← documentStatements, hRun, Option.bind_some, hRest]
      simp

/-- The first row makes the key, so that all rows may be treated as further
ones. -/
theorem run_first_row (hKey : entries.lookup key = none) (current : List String)
    (first : List (String × Data)) (others : List (List (String × Data))) :
    run (current, entries) ((rowStatements ((first :: others).map .record)).map (.under [key])) =
      run (current, entries ++ [(key, .rows [])])
        ((rowStatements ((first :: others).map .record)).map (.under [key])) := by
  have hOpen : ((Statement.row []).under [key]).apply current entries =
      ((Statement.row []).under [key]).apply current (entries ++ [(key, .rows [])]) :=
    apply_first_row hKey current
  rw [List.map_cons, rowStatements, List.append_assoc, List.cons_append, List.map_cons, run_cons,
    run_cons, hOpen]

/-- Sections build their nodes, whatever entries they stand behind. -/
theorem builds (h : Tabular depth fields) : Builds fields := by
  induction h with
  | nil depth =>
      exact fun current entries _ => ⟨current, [], by simp [fieldStatements, run_nil], .nil⟩
  | plain hKey hValue hRest ih => exact builds_plain hValue ih
  | table hKey hFields hRest ihFields ihRest =>
      exact builds_section (isSection_record _) hKey
        (fun current _ hNew => exists_run_table hFields ihFields current hNew) ihRest
  | rows hKey hTables hRest ihTables ihRest =>
      refine builds_section (isSection_rows _ _) hKey (fun current entries hNew => ?_) ihRest
      obtain ⟨last, made, hRun, hMade⟩ := exists_run_rows hTables ihTables hNew current []
      refine ⟨last, .rows made, ?_, .list hMade⟩
      exact (run_first_row hNew current _ _).trans hRun

/-- The statements of a record denote it, but for the order of its
fields. -/
theorem exists_assemble? (h : Tabular depth fields) :
    ∃ d, assemble? (documentStatements fields) = some d ∧ Rearranged (.record fields) d := by
  obtain ⟨last, nodes, hRun, hNodes⟩ := exists_run_document h (builds h)
  refine ⟨.record (fieldsOf nodes), ?_, hNodes⟩
  rw [run] at hRun
  rw [assemble?, hRun]
  rfl

/-- A printed record is read back, but for the order of its fields. Plain
values are printed before sections, and so the order may change. -/
theorem exists_parse?_print (h : Tabular depthLimit fields) :
    ∃ d, parse? (print fields) = some d ∧ Rearranged (.record fields) d := by
  obtain ⟨d, hAssembled, hRearranged⟩ := exists_assemble? h
  have hUnmarked : (print fields).toList.head? ≠ some '\uFEFF' := (blocksRead_document h).unmarked
  refine ⟨d, ?_, hRearranged⟩
  rw [parse?]
  split
  · next hMark => exact absurd (by rw [hMark, List.head?_cons]) hUnmarked
  · rw [statements?_print h, Option.bind_some, hAssembled]

end ScriptBindings.Toml
