/-! Paths as written. A path is a text whose segments are separated by
slashes; empty segments and `.` lead nowhere, except that a path may begin
with them. Nothing here looks at what is stored. -/
namespace ScriptBindings.Path

def segments (path : String) : List String :=
  (path.toList.splitOn '/').map String.ofList

def isAbsolute (path : String) : Bool :=
  path.toList.head? == some '/'

/-- The path of `inner` seen from `base`, keeping both as they are
written. -/
def join (base inner : String) : String :=
  if isAbsolute inner || base == "" then inner
  else if base.toList.getLast? == some '/' then base ++ inner
  else base ++ "/" ++ inner

/-- Drop trailing segments that lead nowhere; the first segment stays. -/
def dropIdle (segments : List String) : List String :=
  match segments with
  | [] => []
  | first :: rest =>
      first :: (rest.reverse.dropWhile fun s => s == "" || s == ".").reverse

def ofSegments (absolute : Bool) (segments : List String) : String :=
  if absolute && segments == [""] then "/" else "/".intercalate segments

/-- The path without its last segment; empty if there is nothing before
it. -/
def parent (path : String) : String :=
  ofSegments (isAbsolute path) (dropIdle (dropIdle (segments path)).dropLast)

/-- The last segment, if it is a name. -/
def fileName? (path : String) : Option String :=
  match (dropIdle (segments path)).getLast? with
  | some name => if name == "" || name == "." || name == ".." then none else some name
  | none => none

/-- What follows the last dot of the file name, unless the dot begins it. -/
def extension? (path : String) : Option String := do
  let name ← fileName? path
  let reversed := name.toList.reverse
  match reversed.dropWhile (· != '.') with
  | '.' :: _ :: _ => some (String.ofList (reversed.takeWhile (· != '.')).reverse)
  | _ => none

end ScriptBindings.Path
