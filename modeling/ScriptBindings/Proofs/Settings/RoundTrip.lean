import ScriptBindings.Proofs.Data.JsonRoundTrip
import ScriptBindings.Proofs.Data.TomlAssembly
import ScriptBindings.Proofs.Settings.Reading

/-! Settings read back from their text. What is written of settings is a
record that both notations can hold, so that their texts give the settings
again, whatever texts, keys and lists the settings hold. -/
namespace ScriptBindings.Settings

open Data

variable {depth : Nat} {key : String} {value : Data} {rest fields : List (String × Data)}

/-! ### The shape of what is written -/

/-- No plain value is a number, and so the printers need not agree about
numbers. -/
theorem Plain.numberless (h : value.Plain) : Json.Numberless value := by
  cases h with
  | flag value => exact .flag value
  | text value => exact .text value
  | texts values => exact .list (by simpa using fun value _ => .text value)

theorem Tabular.numberless (h : Tabular depth fields) : Json.Numberless (.record fields) := by
  refine .record ?_
  induction h with
  | nil => simp
  | plain _ hValue _ ih => exact List.forall_mem_cons.mpr ⟨Plain.numberless hValue, ih⟩
  | table _ _ _ ihFields ih => exact List.forall_mem_cons.mpr ⟨.record ihFields, ih⟩
  | rows _ _ _ ihTables ih =>
      refine List.forall_mem_cons.mpr ⟨.list fun d hd => ?_, ih⟩
      obtain ⟨fields, hFields, rfl⟩ := List.mem_map.mp hd
      exact .record (ihTables fields hFields)

/-- A list of records is a list of rows, unless it is empty. -/
theorem tabular_list {α : Type} {write : α → Data} (hKey : key ∉ rest.map (·.1))
    (h : ∀ a, ∃ fields, write a = .record fields ∧ Tabular depth fields)
    (values : List α) (hRest : Tabular (depth + 1) rest) :
    Tabular (depth + 1) ((key, .list (values.map write)) :: rest) := by
  cases values with
  | nil => exact .plain hKey (.texts []) hRest
  | cons first others =>
      choose tables hWrite hTables using h
      have hRows : (first :: others).map write =
          (tables first :: others.map tables).map .record := by
        simp [hWrite]
      rw [hRows]
      refine .rows hKey ?_ hRest
      rw [← List.map_cons, List.forall_mem_map]
      exact fun a _ => hTables a

theorem tabular_patternFields (depth : Nat) (spec : PatternSpec) :
    Tabular depth (patternFields spec) :=
  .plain (by simp) (.text _) (.plain (by simp) (.text _) (.nil depth))

theorem tabular_namePatternFields (depth : Nat) (patterns : NamePatterns) :
    Tabular (depth + 1) (namePatternFields patterns) := by
  have hPattern := tabular_patternFields depth
  exact .table (by simp) (hPattern _) <| .table (by simp) (hPattern _) <|
    .table (by simp) (hPattern _) <| .table (by simp) (hPattern _) <|
    .table (by simp) (hPattern _) <| .table (by simp) (hPattern _) (.nil _)

theorem tabular_actionNameFields (depth : Nat) (names : ActionNames) :
    Tabular depth (actionNameFields names) :=
  .plain (by simp) (.text _) <| .plain (by simp) (.text _) <| .plain (by simp) (.text _) (.nil _)

theorem tabular_invocationFields (depth : Nat) (s : InvocationSettings) :
    Tabular (depth + 1) (invocationFields s) :=
  .plain (by simp) (.flag _) <| .plain (by simp) (.flag _) <| .plain (by simp) (.flag _) <|
    .plain (by simp) (.flag _) <| .plain (by simp) (.flag _) <|
    .table (by simp) (tabular_actionNameFields depth _) (.nil _)

theorem tabular_outputFields (depth : Nat) (output : OutputSettings) :
    Tabular depth (outputFields output) :=
  .plain (by simp) (.text _) <| .plain (by simp) (.text _) (.nil _)

theorem tabular_optionalField (depth : Nat) (name : String) (value : Option String) :
    Tabular depth (optionalField name value) := by
  cases value with
  | none => exact .nil depth
  | some text => exact .plain (by simp) (.text text) (.nil depth)

theorem tabular_overrideGenericData (depth : Nat) (generic : OverrideGeneric) :
    ∃ fields, overrideGenericData generic = .record fields ∧ Tabular depth fields := by
  refine ⟨_, rfl, .plain ?_ (.text _) (tabular_optionalField depth _ _)⟩
  cases generic.constraint <;> simp [optionalField]

theorem tabular_inputRootData (depth : Nat) (input : InputRoot) :
    ∃ fields, inputRootData input = .record fields ∧ Tabular depth fields := by
  have hPath := tabular_optionalField depth "module_path" input.modulePath
  refine ⟨_, rfl, .plain ?_ (.text _) (.plain ?_ (.texts _) hPath)⟩ <;>
    cases input.modulePath <;> simp [optionalField]

/-- Overrides are texts and tables, under keys that are the canonical texts
of types. -/
theorem tabular_overrideFields (depth : Nat) (table : OverrideTable) :
    Tabular (depth + 2) (overrideFields table) := by
  obtain ⟨entries, hSorted⟩ := table
  induction entries with
  | nil => exact .nil _
  | cons entry entries ih =>
      obtain ⟨key, entry⟩ := entry
      obtain ⟨hLess, hRest⟩ := List.pairwise_cons.mp hSorted
      have hKey : key ∉ (overrideFields ⟨entries, hRest⟩).map (·.1) := by
        intro hMem
        simp only [overrideFields, List.map_map, List.mem_map] at hMem
        obtain ⟨other, hOther, hSame⟩ := hMem
        exact String.lt_irrefl key (hSame ▸ hLess other hOther)
      cases entry with
      | plain host => exact .plain hKey (.text host) (ih hRest)
      | generic host generics =>
          have hGenerics := tabular_overrideGenericData depth
          exact .table hKey
            (.plain (by simp) (.text host) (tabular_list (by simp) hGenerics generics (.nil _)))
            (ih hRest)

/-- The settings are tables, nested less deep than the reader allows, so
that they can be printed as such. -/
theorem tabular_fields (s : Settings) : Tabular Toml.depthLimit s.fields := by
  have hInput := tabular_inputRootData 78
  have hOutput := tabular_outputFields 78 s.output
  exact .plain (by simp) (.text _) <| .plain (by simp) (.texts _) <| .plain (by simp) (.text _) <|
    .table (by simp) (tabular_overrideFields 76 s.overrides) <|
    .table (by simp) (tabular_namePatternFields 77 s.namePatterns) <|
    .table (by simp) (tabular_invocationFields 77 s.invocation) <|
    .plain (by simp) (.text _) <| .plain (by simp) (.flag _) <|
    tabular_list (by simp) hInput s.inputs <| .table (by simp) hOutput (.nil _)

/-- Settings are read back from the text they are written as, in both
notations; as JSON, over several lines or on one. Nothing is assumed of the
settings. -/
theorem readsBack_toToml_toJson (s : Settings) :
    parse? .toml s.toToml = some s ∧ parse? .json s.toJson = some s ∧
      parse? .json (Json.compact s.toData) = some s := by
  have hShape := tabular_fields s
  have hNumbers : Json.Numberless s.toData := Tabular.numberless hShape
  have hJson : ofData? .json s.toData = some s := readsBack_settings .json s _ (.refl _)
  obtain ⟨d, hParsed, hRearranged⟩ := Toml.exists_parse?_print hShape
  refine ⟨?_, ?_, ?_⟩
  · rw [parse?, toToml, hParsed, Option.bind_some, readsBack_settings .toml s d hRearranged]
  · rw [parse?, toJson, Json.parse?_pretty hNumbers, Option.bind_some, hJson]
  · rw [parse?, Json.parse?_compact hNumbers, Option.bind_some, hJson]

end ScriptBindings.Settings
