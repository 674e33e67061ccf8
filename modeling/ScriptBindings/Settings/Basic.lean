import ScriptBindings.Name.Pattern
import ScriptBindings.Settings.Overrides

/-! The settings of a run. Every setting has a default, so that the empty
settings are complete. -/
namespace ScriptBindings

/-- What stands for the placeholder `action`, by flavour of invocation. -/
structure ActionNames where
  sync : String := "Invoke"
  trySync : String := "InvokeTrySync"
  async : String := "InvokeAsync"
  deriving DecidableEq, Repr

/-- The flavours of invocation that functions are bound with. -/
structure InvocationSettings where
  syncEnabled : Bool := false
  trySyncEnabled : Bool := true
  asyncEnabled : Bool := false
  /-- Functions that return a promise are bound asynchronously only. -/
  promiseOnlyAsync : Bool := true
  /-- Methods of functions that return a promise end with `Async`. -/
  promiseAppendAsync : Bool := false
  actionNames : ActionNames := {}
  deriving DecidableEq, Repr

def InvocationSettings.enabledCount (s : InvocationSettings) : Nat :=
  [s.syncEnabled, s.trySyncEnabled, s.asyncEnabled].count true

structure NamePatterns where
  interface : PatternSpec := ⟨"I\x7bname\x7d", .verbatim⟩
  runtimeClass : PatternSpec := ⟨"\x7bname\x7d", .verbatim⟩
  module : PatternSpec := ⟨"\x7bname\x7dModule", .pascal⟩
  preload : PatternSpec := ⟨"Preload\x7bmodule\x7d", .pascal⟩
  method : PatternSpec := ⟨"\x7bfunction\x7d", .pascal⟩
  parameter : PatternSpec := ⟨"\x7bname\x7d", .verbatim⟩
  deriving DecidableEq, Repr

def NamePatterns.spec (patterns : NamePatterns) : NameKind → PatternSpec
  | .interface => patterns.interface
  | .runtimeClass => patterns.runtimeClass
  | .module => patterns.module
  | .preload => patterns.preload
  | .method => patterns.method
  | .parameter => patterns.parameter

/-- A directory of declaration modules, or a single one. -/
structure InputRoot where
  location : String
  /-- Paths below the directory that are left out with all they contain. -/
  excludes : List String := []
  /-- The module path of a single module, instead of its file name. -/
  modulePath : Option String := none
  deriving DecidableEq, Repr

/-- Whether a path relative to the root is an excluded path or lies below
one. -/
def InputRoot.isExcluded (input : InputRoot) (relative : String) : Bool :=
  let path := relative.toList.map fun c => if c == '\\' then '/' else c
  input.excludes.any fun exclude =>
    let directory := (exclude.toList.reverse.dropWhile (· == '/')).reverse
    path == directory || (directory ++ ['/']).isPrefixOf path

structure OutputSettings where
  directory : String := "TSRuntime"
  fileExtension : String := ".g.cs"
  deriving DecidableEq, Repr

def OutputSettings.fileName (output : OutputSettings) (fragment : String) : String :=
  fragment ++ output.fileExtension

structure Settings where
  hostNamespace : String := "Microsoft.JSInterop"
  usings : List String := ["Microsoft.AspNetCore.Components"]
  /-- The host type of whatever has no other. -/
  fallbackType : String := "object"
  overrides : OverrideTable := .empty
  namePatterns : NamePatterns := {}
  invocation : InvocationSettings := {}
  /-- The method that loads every module. -/
  preloadAllName : String := "PreloadAllModules"
  serviceExtension : Bool := true
  inputs : List InputRoot := [{ location := ".", excludes := ["bin", "obj"] }]
  output : OutputSettings := {}
  deriving DecidableEq

end ScriptBindings
