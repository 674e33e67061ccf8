import ScriptBindings.Proofs.Data.TomlReading
import ScriptBindings.Proofs.Data.TomlTables

/-! The statements of a printed record. A record is printed as blocks with a
blank line between two; each block reads as its header and its entries. -/
namespace ScriptBindings.Toml

open Data

variable {text first second : List Char} {statements others : List Statement}
  {fields rest : List (String × Data)} {depth : Nat}

/-! ### The statements of a record -/

/-- The fields that are written on a line of their own. -/
def plainFields (fields : List (String × Data)) : List (String × Data) :=
  fields.filter fun (_, value) => !isSection value && !value.isNull

def entryStatements (fields : List (String × Data)) : List Statement :=
  (plainFields fields).map fun (key, value) => .entry [key] value

theorem isSection_plain {value : Data} (h : value.Plain) : isSection value = false := by
  cases h with
  | flag value => rfl
  | text value => rfl
  | texts values => cases values <;> rfl

theorem isNull_plain {value : Data} (h : value.Plain) : value.isNull = false := by
  cases h <;> rfl

theorem isSection_record (fields : List (String × Data)) : isSection (.record fields) = true := rfl

theorem isSection_rows (first : List (String × Data)) (others : List (List (String × Data))) :
    isSection (.list ((first :: others).map .record)) = true := by
  simp [isSection, isRecord]

theorem plainFields_plain {value : Data} (h : value.Plain) (key : String)
    (rest : List (String × Data)) :
    plainFields ((key, value) :: rest) = (key, value) :: plainFields rest := by
  simp [plainFields, isSection_plain h, isNull_plain h]

theorem plainFields_section {value : Data} (h : isSection value = true) (key : String)
    (rest : List (String × Data)) : plainFields ((key, value) :: rest) = plainFields rest := by
  simp [plainFields, h]

/-- In a table that can be printed the entries hold plain values. -/
theorem plain_of_mem_plainFields (h : Tabular depth fields) :
    ∀ field ∈ plainFields fields, field.2.Plain := by
  induction h with
  | nil depth => simp [plainFields]
  | @plain depth key value rest hKey hValue hRest ih =>
      rw [plainFields_plain hValue]
      exact List.forall_mem_cons.mpr ⟨hValue, ih⟩
  | @table depth key fields rest hKey hFields hRest _ ih =>
      rwa [plainFields_section (isSection_record fields)]
  | @rows depth key first others rest hKey hTables hRest _ ih =>
      rwa [plainFields_section (isSection_rows first others)]

/-- Whether the header of a table is left out: the table has no values of
its own, and the headers of its tables lead through it. -/
def hidesHeader (fields : List (String × Data)) : Bool :=
  (plainFields fields).isEmpty && !fields.isEmpty

/-- A header is left out exactly for a table that has sections only. -/
theorem hidesHeader_iff : hidesHeader fields = true ↔ plainFields fields = [] ∧ fields ≠ [] := by
  simp [hidesHeader]

/-- An entry stays below the last header, whatever that was. -/
theorem map_under_entryStatements (path : List String) (fields : List (String × Data)) :
    (entryStatements fields).map (.under path) = entryStatements fields := by
  rw [entryStatements, List.map_map]
  rfl

mutual

/-- The statements of a value under headers, from its own header on. -/
def sectionStatements : Data → List Statement
  | .record fields =>
      (if hidesHeader fields then [] else .table [] :: entryStatements fields) ++
        fieldStatements fields
  | .list items => rowStatements items
  | _ => []

def fieldStatements : List (String × Data) → List Statement
  | [] => []
  | (key, value) :: rest =>
      (if isSection value then (sectionStatements value).map (.under [key]) else []) ++
        fieldStatements rest

def rowStatements : List Data → List Statement
  | [] => []
  | .record fields :: rest =>
      .row [] :: entryStatements fields ++ fieldStatements fields ++ rowStatements rest
  | _ :: rest => rowStatements rest

end

/-- The statements of a record that is a document. -/
def documentStatements (fields : List (String × Data)) : List Statement :=
  entryStatements fields ++ fieldStatements fields

/-! ### Reading lines -/

/-- However the text goes on, its statements are read first. -/
def Reads (text : List Char) (statements : List Statement) : Prop :=
  ∀ rest fuel, (text ++ rest).length < fuel → ∃ left, rest.length < left ∧
    statementsWithin fuel (text ++ rest) = (statementsWithin left rest).map (statements ++ ·)

theorem reads_nil : Reads [] [] :=
  fun _ fuel h => ⟨fuel, h, by simp⟩

/-- Texts that are read as statements may be put one behind the other. -/
theorem Reads.append (hFirst : Reads first statements) (hSecond : Reads second others) :
    Reads (first ++ second) (statements ++ others) := by
  intro rest fuel h
  rw [List.append_assoc] at h ⊢
  obtain ⟨between, hBetween, hStatements⟩ := hFirst (second ++ rest) fuel h
  obtain ⟨left, hLeft, hOthers⟩ := hSecond rest between hBetween
  refine ⟨left, hLeft, ?_⟩
  rw [hStatements, hOthers, Option.map_map]
  simp [Function.comp_def]

theorem reads_blankLine : Reads ['\n'] [] := by
  intro rest fuel h
  obtain ⟨fuel, rfl⟩ := Nat.exists_eq_add_of_le' (show 1 ≤ fuel by omega)
  refine ⟨fuel + 1, by simp at h; omega, ?_⟩
  rw [List.singleton_append, statementsWithin, dropGap_line, statementsWithin]
  simp

/-- A line that is read as a statement, and begins with it. Nothing of the
next line is needed to read it. -/
theorem reads_line {c : Char} {statement : Statement} (hVisible : isVisible c = true)
    (h : ∀ rest, statement? (c :: text ++ rest) = some (statement, '\n' :: rest)) :
    Reads (c :: text) [statement] := by
  intro rest fuel hFuel
  simp only [List.length_append, List.length_cons] at hFuel
  obtain ⟨fuel, rfl⟩ := Nat.exists_eq_add_of_le' (show 1 ≤ fuel by omega)
  refine ⟨fuel, by omega, ?_⟩
  have hStatement := h rest
  have hEnd : endLine? ('\n' :: rest) = some rest := rfl
  rw [List.cons_append] at hStatement ⊢
  rw [statementsWithin, dropGap_visible hVisible]
  simp only [hStatement, hEnd, Option.bind_eq_bind, Option.bind_some]
  rw [Option.map_eq_bind]
  rfl

/-- A text that is read as statements is taken apart into them. -/
theorem statements?_of_reads (h : Reads text statements) : statements? text = some statements := by
  obtain ⟨left, hLeft, hStatements⟩ := h [] (text.length + 1) (by simp)
  obtain ⟨left, rfl⟩ := Nat.exists_eq_add_of_le' (show 1 ≤ left by omega)
  rw [List.append_nil] at hStatements
  rw [statements?, hStatements, statementsWithin, dropGap_nil]
  simp

theorem reads_entry {value : Data} (h : value.Plain) (key : String) :
    Reads (quoteKey key ++ " = " ++ valueText value ++ "\n").toList [.entry [key] value] := by
  obtain ⟨first, behind, hKey, hVisible, -⟩ := exists_quoteKey_visible key
  have hLine := statement?_entry h key
  have hText : (quoteKey key ++ " = " ++ valueText value ++ "\n").toList =
      first :: (behind ++ " = ".toList ++ (valueText value).toList ++ ['\n']) := by simp [hKey]
  rw [hText] at hLine ⊢
  exact reads_line hVisible hLine

theorem reads_table {path : List String} (hNil : path ≠ []) (hDepth : path.length ≤ depthLimit) :
    Reads ("[" ++ quotePath path ++ "]\n").toList [.table path] := by
  have hLine := statement?_table hNil hDepth
  have hText : ("[" ++ quotePath path ++ "]\n").toList =
      '[' :: ((quotePath path).toList ++ [']', '\n']) := by simp
  rw [hText] at hLine ⊢
  exact reads_line (by decide) hLine

theorem reads_row {path : List String} (hNil : path ≠ []) (hDepth : path.length ≤ depthLimit) :
    Reads ("[[" ++ quotePath path ++ "]]\n").toList [.row path] := by
  have hLine := statement?_row hNil hDepth
  have hText : ("[[" ++ quotePath path ++ "]]\n").toList =
      '[' :: '[' :: ((quotePath path).toList ++ [']', ']', '\n']) := by simp
  rw [hText] at hLine ⊢
  exact reads_line (by decide) hLine

theorem reads_entries (h : ∀ field ∈ fields, field.2.Plain) :
    Reads (String.join (fields.map fun (key, value) =>
        quoteKey key ++ " = " ++ valueText value ++ "\n")).toList
      (fields.map fun (key, value) => .entry [key] value) := by
  induction fields with
  | nil => exact reads_nil
  | cons field fields ih =>
      rw [List.forall_mem_cons] at h
      rw [List.map_cons, List.map_cons, String.join_cons, String.toList_append]
      exact (reads_entry h.1 field.1).append (ih h.2)

/-! ### Reading blocks -/

/-- A block reads as statements, and does not begin with a byte order
mark. -/
structure BlockReads (block : String) (statements : List Statement) : Prop where
  reads : Reads block.toList statements
  unmarked : block.toList.head? ≠ some '\uFEFF'

/-- Blocks read as statements, one block behind the other. -/
inductive BlocksRead : List String → List Statement → Prop
  | nil : BlocksRead [] []
  | cons {block : String} {blocks : List String} {statements others : List Statement}
      (hBlock : BlockReads block statements) (h : BlocksRead blocks others) :
      BlocksRead (block :: blocks) (statements ++ others)

theorem BlocksRead.append {blocks more : List String} (hBlocks : BlocksRead blocks statements)
    (hMore : BlocksRead more others) : BlocksRead (blocks ++ more) (statements ++ others) := by
  induction hBlocks with
  | nil => exact hMore
  | cons hBlock _ ih =>
      rw [List.cons_append, List.append_assoc]
      exact .cons hBlock ih

theorem BlocksRead.singleton {block : String} (h : BlockReads block statements) :
    BlocksRead [block] statements := by
  have hOne := BlocksRead.cons h .nil
  rwa [List.append_nil] at hOne

/-- Blocks are read with a blank line between two. -/
theorem BlocksRead.reads {blocks : List String} (h : BlocksRead blocks statements) :
    Reads ("\n".intercalate blocks).toList statements := by
  induction h with
  | nil => exact reads_nil
  | @cons block blocks statements others hBlock hBlocks ih =>
      cases blocks with
      | nil =>
          cases hBlocks
          rw [String.intercalate_singleton, List.append_nil]
          exact hBlock.reads
      | cons next blocks =>
          rw [String.intercalate_cons_cons, String.toList_append, String.toList_append,
            List.append_assoc]
          exact hBlock.reads.append (reads_blankLine.append ih)

/-- No block begins with a mark of the byte order, which would be
dropped. -/
theorem BlocksRead.unmarked {blocks : List String} (h : BlocksRead blocks statements) :
    ("\n".intercalate blocks).toList.head? ≠ some '\uFEFF' := by
  cases h with
  | nil => decide
  | @cons block blocks statements others hBlock _ =>
      have hBlock := hBlock.unmarked
      cases blocks with
      | nil => rwa [String.intercalate_singleton]
      | cons next blocks =>
          rw [String.intercalate_cons_cons, String.toList_append, String.toList_append,
            List.append_assoc]
          cases hText : block.toList with
          | nil => simp
          | cons c text =>
              rw [hText] at hBlock
              exact hBlock

theorem isEmpty_plainLines (fields : List (String × Data)) :
    (plainLines fields).isEmpty = (plainFields fields).isEmpty := by
  rw [plainLines, plainFields, List.isEmpty_map]

/-- A header with the entries of its table below it. -/
theorem blockReads_header {header : String} {statement : Statement} (h : Tabular depth fields)
    (hHeader : Reads header.toList [statement]) (hFirst : header.toList.head? = some '[') :
    BlockReads (header ++ String.join (plainLines fields))
      (statement :: entryStatements fields) := by
  refine ⟨?_, ?_⟩
  · rw [String.toList_append]
    exact hHeader.append (reads_entries (plain_of_mem_plainFields h))
  · rw [String.toList_append, List.head?_append, hFirst, Option.some_or]
    decide

variable {path : List String} {tables : List (List (String × Data))}

/-- The block of a table is its header and its entries, unless it is left
out. -/
theorem blocksRead_tableBlock (hNil : path ≠ []) (hDepth : path.length ≤ depthLimit)
    (h : Tabular depth fields) :
    BlocksRead (tableBlock path fields)
      (if hidesHeader fields then [] else .table path :: entryStatements fields) := by
  have hHeader : ((plainLines fields).isEmpty && !fields.isEmpty) = hidesHeader fields := by
    rw [isEmpty_plainLines, hidesHeader]
  simp only [tableBlock, hHeader]
  split
  · exact .nil
  · exact .singleton (blockReads_header h (reads_table hNil hDepth) (by simp))

/-- A section is the block of its own and then those of the sections in it,
under the path. -/
theorem blocksRead_section (hNil : path ≠ []) (hDepth : path.length ≤ depthLimit)
    (h : Tabular depth fields)
    (hFields : BlocksRead (fieldBlocks path fields) ((fieldStatements fields).map (.under path))) :
    BlocksRead (sectionBlocks path (.record fields))
      ((sectionStatements (.record fields)).map (.under path)) := by
  have hHeader := blocksRead_tableBlock hNil hDepth h
  rw [sectionBlocks, sectionStatements, List.map_append]
  refine BlocksRead.append ?_ hFields
  split at hHeader
  · next hHidden => rwa [if_pos hHidden]
  · next hShown =>
      rwa [if_neg hShown, List.map_cons, map_under_entryStatements, Statement.under,
        List.append_nil]

/-- The rows of a list are sections under one path, each with its own
header. -/
theorem blocksRead_rows (hNil : path ≠ []) (hDepth : path.length ≤ depthLimit)
    (h : ∀ fields ∈ tables, Tabular depth fields)
    (hFields : ∀ fields ∈ tables,
      BlocksRead (fieldBlocks path fields) ((fieldStatements fields).map (.under path))) :
    BlocksRead (rowBlocks path (tables.map .record))
      ((rowStatements (tables.map .record)).map (.under path)) := by
  induction tables with
  | nil => exact .nil
  | cons fields tables ih =>
      rw [List.forall_mem_cons] at h hFields
      have hRow := blockReads_header h.1 (reads_row hNil hDepth) (by simp)
      rw [List.map_cons, rowBlocks, rowStatements, List.map_append, List.map_append, List.map_cons]
      refine BlocksRead.append (BlocksRead.append ?_ hFields.1) (ih h.2 hFields.2)
      rw [map_under_entryStatements, Statement.under, List.append_nil]
      exact .singleton hRow

theorem blocksRead_cons {key : String} {value : Data} (h : isSection value = true)
    (hValue : BlocksRead (sectionBlocks (path ++ [key]) value)
      ((sectionStatements value).map (.under (path ++ [key]))))
    (hRest : BlocksRead (fieldBlocks path rest) ((fieldStatements rest).map (.under path))) :
    BlocksRead (fieldBlocks path ((key, value) :: rest))
      ((fieldStatements ((key, value) :: rest)).map (.under path)) := by
  rw [fieldBlocks, fieldStatements, if_pos h, if_pos h, List.map_append, map_under_under]
  exact hValue.append hRest

/-- The blocks of a record read as its statements, under whatever path they
stand. -/
theorem blocksRead_fields (h : Tabular depth fields) :
    ∀ path, path.length + depth ≤ depthLimit →
      BlocksRead (fieldBlocks path fields) ((fieldStatements fields).map (.under path)) := by
  induction h with
  | nil depth => exact fun path _ => .nil
  | @plain depth key value rest hKey hValue hRest ih =>
      intro path hDepth
      rw [fieldBlocks, fieldStatements, isSection_plain hValue]
      exact ih path hDepth
  | @table depth key fields rest hKey hFields hRest ihFields ihRest =>
      intro path hDepth
      have hNil : path ++ [key] ≠ [] := by simp
      have hLength : (path ++ [key]).length = path.length + 1 := by simp
      have hTable := blocksRead_section hNil (by omega) hFields (ihFields _ (by omega))
      exact blocksRead_cons (isSection_record fields) hTable (ihRest path hDepth)
  | @rows depth key first others rest hKey hTables hRest ihTables ihRest =>
      intro path hDepth
      have hNil : path ++ [key] ≠ [] := by simp
      have hLength : (path ++ [key]).length = path.length + 1 := by simp
      have hRows := blocksRead_rows hNil (by omega) hTables fun fields hMem =>
        ihTables fields hMem _ (by omega)
      exact blocksRead_cons (isSection_rows first others) hRows (ihRest path hDepth)

/-- The entries of the document itself stand before any header. -/
theorem blocksRead_own (h : Tabular depth fields) :
    BlocksRead (if (plainLines fields).isEmpty then [] else [String.join (plainLines fields)])
      (entryStatements fields) := by
  have hReads : Reads (String.join (plainLines fields)).toList (entryStatements fields) :=
    reads_entries (plain_of_mem_plainFields h)
  cases hPlain : plainFields fields with
  | nil =>
      rw [isEmpty_plainLines, entryStatements, hPlain]
      exact .nil
  | cons field others =>
      obtain ⟨first, behind, hKey, -, -, hMark⟩ := exists_quoteKey_visible field.1
      have hLines : plainLines fields = (field :: others).map fun field =>
          quoteKey field.1 ++ " = " ++ valueText field.2 ++ "\n" := by rw [← hPlain]; rfl
      rw [isEmpty_plainLines, hPlain]
      refine .singleton ⟨hReads, ?_⟩
      rw [hLines, List.map_cons, String.join_cons]
      simpa [hKey] using hMark

/-- The statements of a printed document are those of its record. -/
theorem blocksRead_document (h : Tabular depthLimit fields) :
    BlocksRead ((if (plainLines fields).isEmpty then [] else [String.join (plainLines fields)]) ++
      fieldBlocks [] fields) (documentStatements fields) := by
  have hFields := blocksRead_fields h [] (by simp)
  rw [map_under_nil] at hFields
  exact (blocksRead_own h).append hFields

/-- A printed document is read as the statements it was printed from. -/
theorem statements?_print (h : Tabular depthLimit fields) :
    statements? (print fields).toList = some (documentStatements fields) :=
  statements?_of_reads (blocksRead_document h).reads

end ScriptBindings.Toml
