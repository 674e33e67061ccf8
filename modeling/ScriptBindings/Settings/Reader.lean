import ScriptBindings.Data.JsonParser
import ScriptBindings.Data.TomlParser
import ScriptBindings.Settings.Basic

/-! Settings read from JSON and from TOML. Whatever is missing has its
default; a key that is unknown, a key given twice and a value of the wrong
shape are refused. A group of settings may also be given as the list of its
values in order, which may end early. A list in TOML may also go on behind
the last value, and what follows is of no account, except within an
override. -/
namespace ScriptBindings.Settings

inductive Format where
  | json
  | toml
  deriving DecidableEq, Repr

/-- Whether a list may have more items than its group has settings. -/
def Format.allowsSurplus : Format → Bool
  | .json => false
  | .toml => true

/-- The fields of a group. Keys of a record must be among the names and
differ; a list has no more items than there are names, unless a surplus is
allowed. -/
def group? (surplus : Bool) (names : List String) : Data → Option (List (String × Data))
  | .record fields =>
      let keys := fields.map (·.1)
      if keys.all names.contains && decide keys.Nodup then some fields else none
  | .list items =>
      if surplus || items.length ≤ names.length then some (names.zip items) else none
  | _ => none

def required {α : Type} (fields : List (String × Data)) (name : String)
    (read : Data → Option α) : Option α :=
  (fields.lookup name).bind read

def field {α : Type} (fields : List (String × Data)) (name : String) (default : α)
    (read : Data → Option α) : Option α :=
  match fields.lookup name with
  | some d => read d
  | none => some default

/-- The payload of an enumeration value that is written as a record's only
key. -/
def isUnit : Format → Data → Bool
  | .json, .null => true
  | .toml, .record [] => true
  | .toml, .list [] => true
  | _, _ => false

def casing? (format : Format) : Data → Option Casing
  | .text label => Casing.ofLabel? label
  | .record [(label, payload)] => if isUnit format payload then Casing.ofLabel? label else none
  | _ => none

def pattern? (format : Format) (d : Data) : Option PatternSpec := do
  let fields ← group? format.allowsSurplus ["pattern", "casing"] d
  return {
    pattern := ← required fields "pattern" Data.text?
    casing := ← field fields "casing" .verbatim (casing? format) }

def namePatterns? (format : Format) (d : Data) : Option NamePatterns := do
  let fields ← group? format.allowsSurplus
    ["interface", "runtime_class", "module", "preload", "method", "parameter"] d
  let default : NamePatterns := {}
  return {
    interface := ← field fields "interface" default.interface (pattern? format)
    runtimeClass := ← field fields "runtime_class" default.runtimeClass (pattern? format)
    module := ← field fields "module" default.module (pattern? format)
    preload := ← field fields "preload" default.preload (pattern? format)
    method := ← field fields "method" default.method (pattern? format)
    parameter := ← field fields "parameter" default.parameter (pattern? format) }

def actionNames? (format : Format) (d : Data) : Option ActionNames := do
  let fields ← group? format.allowsSurplus ["sync", "trysync", "async"] d
  let default : ActionNames := {}
  return {
    sync := ← field fields "sync" default.sync Data.text?
    trySync := ← field fields "trysync" default.trySync Data.text?
    async := ← field fields "async" default.async Data.text? }

def invocation? (format : Format) (d : Data) : Option InvocationSettings := do
  let fields ← group? format.allowsSurplus
    ["sync_enabled", "trysync_enabled", "async_enabled", "promise_only_async",
      "promise_append_async", "action_names"] d
  let default : InvocationSettings := {}
  return {
    syncEnabled := ← field fields "sync_enabled" default.syncEnabled Data.flag?
    trySyncEnabled := ← field fields "trysync_enabled" default.trySyncEnabled Data.flag?
    asyncEnabled := ← field fields "async_enabled" default.asyncEnabled Data.flag?
    promiseOnlyAsync := ← field fields "promise_only_async" default.promiseOnlyAsync Data.flag?
    promiseAppendAsync :=
      ← field fields "promise_append_async" default.promiseAppendAsync Data.flag?
    actionNames := ← field fields "action_names" default.actionNames (actionNames? format) }

def overrideGeneric? (d : Data) : Option OverrideGeneric := do
  let fields ← group? false ["name", "constraint"] d
  return {
    name := ← required fields "name" Data.text?
    constraint := ← field fields "constraint" none (Data.optional? Data.text?) }

/-- A host type alone is a text; with type parameters it is a group. -/
def override? : Data → Option TypeOverride
  | .text host => some (.plain host)
  | d => do
      let fields ← group? false ["type", "generics"] d
      return .generic (← required fields "type" Data.text?)
        (← field fields "generics" [] (Data.listOf? overrideGeneric?))

/-- The override table. Of a key given twice the later entry is kept. -/
def overrides? : Data → Option OverrideTable
  | .record fields => do
      let entries ← fields.mapM fun (key, value) => (override? value).map fun entry => (key, entry)
      return .ofList entries
  | _ => none

def inputRoot? (format : Format) (d : Data) : Option InputRoot := do
  let fields ← group? format.allowsSurplus ["include", "excludes", "module_path"] d
  return {
    location := ← required fields "include" Data.text?
    excludes := ← field fields "excludes" [] (Data.listOf? Data.text?)
    modulePath := ← field fields "module_path" none (Data.optional? Data.text?) }

def output? (format : Format) (d : Data) : Option OutputSettings := do
  let fields ← group? format.allowsSurplus ["directory", "file_extension"] d
  let default : OutputSettings := {}
  return {
    directory := ← field fields "directory" default.directory Data.text?
    fileExtension := ← field fields "file_extension" default.fileExtension Data.text? }

/-- The names of the settings, in order. -/
def names : List String :=
  ["namespace", "using_statements", "unknown_type_fallback", "type_overrides", "name_patterns",
    "invoke", "preload_all_modules_name", "service_extension", "input", "output"]

def ofData? (format : Format) (d : Data) : Option Settings := do
  let fields ← group? format.allowsSurplus names d
  let default : Settings := {}
  return {
    hostNamespace := ← field fields "namespace" default.hostNamespace Data.text?
    usings := ← field fields "using_statements" default.usings (Data.listOf? Data.text?)
    fallbackType := ← field fields "unknown_type_fallback" default.fallbackType Data.text?
    overrides := ← field fields "type_overrides" default.overrides overrides?
    namePatterns := ← field fields "name_patterns" default.namePatterns (namePatterns? format)
    invocation := ← field fields "invoke" default.invocation (invocation? format)
    preloadAllName :=
      ← field fields "preload_all_modules_name" default.preloadAllName Data.text?
    serviceExtension := ← field fields "service_extension" default.serviceExtension Data.flag?
    inputs := ← field fields "input" default.inputs (Data.listOf? (inputRoot? format))
    output := ← field fields "output" default.output (output? format) }

def parse? (format : Format) (text : String) : Option Settings :=
  match format with
  | .json => (Json.parse? text).bind (ofData? .json)
  | .toml => (Toml.parse? text).bind (ofData? .toml)

end ScriptBindings.Settings
