/-! Replacement of every occurrence of a key in a text. Occurrences are
found from left to right and do not overlap; the replacement is not searched
again. -/
namespace ScriptBindings.Text

/-- Replace `key` after the next `skip` characters, which belong to an
occurrence already replaced. -/
def replaceAfter (key replacement : List Char) : Nat → List Char → List Char
  | _, [] => []
  | skip + 1, _ :: rest => replaceAfter key replacement skip rest
  | 0, c :: rest =>
      if key.isPrefixOf (c :: rest) then
        replacement ++ replaceAfter key replacement (key.length - 1) rest
      else
        c :: replaceAfter key replacement 0 rest

/-- Replace a nonempty `key` wherever it occurs. -/
def replace (key replacement text : List Char) : List Char :=
  replaceAfter key replacement 0 text

end ScriptBindings.Text
