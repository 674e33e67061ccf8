import ScriptBindings.Declaration.Basic
import ScriptBindings.Text.Affix

/-! The identifier and the import URL of a module, both read off its path. A
backslash separates path segments as a slash does. -/
namespace ScriptBindings

open Text

namespace ModulePath

def slashed (path : List Char) : List Char :=
  path.map fun c => if c == '\\' then '/' else c

/-- The text before `ending`, or all of it. -/
def dropEnding (ending : String) (text : List Char) : List Char :=
  (before? ending.toList text).getD text

/-- Drop the first of the endings `.d.ts`, `.ts` and `.js` that applies, and
no other. -/
def dropScriptEnding (text : List Char) : List Char :=
  ([".d.ts", ".ts", ".js"].findSome? (before? ·.toList text)).getD text

def fileName (path : List Char) : List Char :=
  ((slashed path).splitOn '/').getLastD []

/-- The file stem with `_` for every character that is no ASCII letter or
digit. A `_` goes in front where an identifier could not begin. -/
def identifier (path : List Char) : List Char :=
  let stem := dropEnding ".razor" (dropScriptEnding (fileName path))
  let name := stem.map fun c => if c.isAlphanum then c else '_'
  match name with
  | [] => ['_']
  | c :: _ => if c.isDigit then '_' :: name else name

def dropDotSlashes : List Char → List Char
  | '.' :: '/' :: rest => dropDotSlashes rest
  | path => path

/-- The path below the web root, with the ending of a script. Leading `./`
go before leading slashes, and one `wwwroot/` after both. -/
def url (path : List Char) : List Char :=
  let relative := (dropDotSlashes (slashed path)).dropWhile (· == '/')
  let below := (after? "wwwroot/".toList relative).getD relative
  '/' :: dropScriptEnding below ++ ".js".toList

end ModulePath

/-- The module at a path, with its name and URL derived from the path. -/
def ScriptModule.ofPath (path : String) (functions : List Signature) : ScriptModule where
  path
  name := String.ofList (ModulePath.identifier path.toList)
  url := String.ofList (ModulePath.url path.toList)
  functions

end ScriptBindings
