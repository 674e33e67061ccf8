import ScriptBindings.Text.Affix
import ScriptBindings.Text.Blank

/-! Identifiers of declaration modules and the words that stand before other
text. Identifiers are ASCII: letters, digits, `_` and `$`, not beginning
with a digit. -/
namespace ScriptBindings.Text

def isNameChar (c : Char) : Bool :=
  c.isAlphanum || c == '_' || c == '$'

def isNameStart (c : Char) : Bool :=
  c.isAlpha || c == '_' || c == '$'

def isName : List Char → Bool
  | [] => false
  | c :: rest => isNameStart c && (c :: rest).all isNameChar

/-- What follows `word` and at least one blank, without its leading
blanks. -/
def afterWord? (word : String) (text : List Char) : Option (List Char) :=
  match after? word.toList text with
  | some (c :: rest) => if isBlank c then some (trimStart rest) else none
  | _ => none

theorem length_afterWord?_lt {word : String} {text rest : List Char}
    (h : afterWord? word text = some rest) : rest.length < text.length := by
  simp only [afterWord?] at h
  split at h
  · next c tail hp =>
      split at h
      · simp only [Option.some.injEq] at h
        subst h
        rw [after?_eq_some_iff.1 hp, List.length_append, List.length_cons]
        have := length_trimStart_le tail
        omega
      · simp at h
  · simp at h

end ScriptBindings.Text
