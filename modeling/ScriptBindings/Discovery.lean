import ScriptBindings.Settings.Basic
import ScriptBindings.Storage.Basic

/-! The declaration modules that the inputs lead to. A directory is searched
at every depth in the order of its listing, so that the result does not
depend on how the entries are stored. -/
namespace ScriptBindings

/-- How the names of declaration modules end. -/
def declarationSuffix : String :=
  ".d.ts"

def isDeclaration (path : String) : Bool :=
  declarationSuffix.toList.reverse.isPrefixOf path.toList.reverse

namespace InputRoot

mutual

/-- The declaration modules at a path relative to the root. An excluded path
is left out with all that lies below it. -/
def declarationsAt (input : InputRoot) (relative : String) : Listing → List String
  | .file => if !input.isExcluded relative && isDeclaration relative then [relative] else []
  | .directory entries =>
      if input.isExcluded relative then [] else declarationsAmong input relative entries

def declarationsAmong (input : InputRoot) (directory : String) :
    List (String × Listing) → List String
  | [] => []
  | (name, listing) :: rest =>
      declarationsAt input (Path.join directory name) listing ++
        declarationsAmong input directory rest

end

/-- The declaration modules below the root, relative to it. -/
def declarations (input : InputRoot) (listing : Listing) : List String :=
  input.declarationsAt "" listing

/-- The path of a module that is an input by itself. -/
def ownPath (input : InputRoot) (root : String) : String :=
  input.modulePath.getD ((Path.fileName? root).getD input.location)

end InputRoot

/-- A module that was found but could not be read. -/
structure UnreadableModule where
  path : String
  fault : StorageFault
  deriving DecidableEq, Repr

section Search

variable {m : Type → Type} [Monad m] [Storage m]

def readModuleText (path : String) : ExceptT UnreadableModule m String := do
  match ← Storage.readText (m := m) path with
  | .ok text => return text
  | .error fault => throw ⟨path, fault⟩

/-- The module paths and texts that one input leads to, seen from `base`. An
input that leads nowhere gives none. -/
def InputRoot.sources (base : String) (input : InputRoot) :
    ExceptT UnreadableModule m (List (String × String)) := do
  let root := Path.join base input.location
  match ← Storage.kind? (m := m) root with
  | none => return []
  | some .file => return [(input.ownPath root, ← readModuleText root)]
  | some .directory =>
      match ← Storage.listing (m := m) root with
      | .error _ => return []
      | .ok listing =>
          (input.declarations listing).mapM fun relative => do
            let text ← readModuleText (Path.join root relative)
            return (relative.map fun c => if c == '\\' then '/' else c, text)

/-- The module paths and texts of all inputs, in their order. -/
def collectSources (base : String) (inputs : List InputRoot) :
    ExceptT UnreadableModule m (List (String × String)) := do
  return (← inputs.mapM (InputRoot.sources base)).flatten

end Search

end ScriptBindings
