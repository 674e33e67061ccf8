import ScriptBindings.Data.JsonPrinter
import ScriptBindings.Data.TomlPrinter
import ScriptBindings.Settings.Basic

/-! Settings written in full, so that what is written does not depend on the
defaults. Only an absent module path and an absent constraint are left
out. -/
namespace ScriptBindings.Settings

def patternFields (spec : PatternSpec) : List (String × Data) :=
  [("pattern", .text spec.pattern), ("casing", .text spec.casing.label)]

def namePatternFields (patterns : NamePatterns) : List (String × Data) :=
  [("interface", .record (patternFields patterns.interface)),
    ("runtime_class", .record (patternFields patterns.runtimeClass)),
    ("module", .record (patternFields patterns.module)),
    ("preload", .record (patternFields patterns.preload)),
    ("method", .record (patternFields patterns.method)),
    ("parameter", .record (patternFields patterns.parameter))]

def actionNameFields (names : ActionNames) : List (String × Data) :=
  [("sync", .text names.sync), ("trysync", .text names.trySync), ("async", .text names.async)]

def invocationFields (s : InvocationSettings) : List (String × Data) :=
  [("sync_enabled", .flag s.syncEnabled),
    ("trysync_enabled", .flag s.trySyncEnabled),
    ("async_enabled", .flag s.asyncEnabled),
    ("promise_only_async", .flag s.promiseOnlyAsync),
    ("promise_append_async", .flag s.promiseAppendAsync),
    ("action_names", .record (actionNameFields s.actionNames))]

/-- A field for a value that may be absent. -/
def optionalField (name : String) (value : Option String) : List (String × Data) :=
  value.toList.map fun text => (name, .text text)

def overrideGenericData (generic : OverrideGeneric) : Data :=
  .record (("name", .text generic.name) :: optionalField "constraint" generic.constraint)

def overrideData : TypeOverride → Data
  | .plain host => .text host
  | .generic host generics =>
      .record [("type", .text host), ("generics", .list (generics.map overrideGenericData))]

def overrideFields (table : OverrideTable) : List (String × Data) :=
  table.entries.map fun (key, entry) => (key, overrideData entry)

def inputRootData (input : InputRoot) : Data :=
  .record (("include", .text input.location) :: ("excludes", .texts input.excludes) ::
    optionalField "module_path" input.modulePath)

def outputFields (output : OutputSettings) : List (String × Data) :=
  [("directory", .text output.directory), ("file_extension", .text output.fileExtension)]

def fields (s : Settings) : List (String × Data) :=
  [("namespace", .text s.hostNamespace),
    ("using_statements", .texts s.usings),
    ("unknown_type_fallback", .text s.fallbackType),
    ("type_overrides", .record (overrideFields s.overrides)),
    ("name_patterns", .record (namePatternFields s.namePatterns)),
    ("invoke", .record (invocationFields s.invocation)),
    ("preload_all_modules_name", .text s.preloadAllName),
    ("service_extension", .flag s.serviceExtension),
    ("input", .list (s.inputs.map inputRootData)),
    ("output", .record (outputFields s.output))]

def toData (s : Settings) : Data :=
  .record s.fields

def toJson (s : Settings) : String :=
  Json.pretty s.toData

def toToml (s : Settings) : String :=
  Toml.print s.fields

end ScriptBindings.Settings
