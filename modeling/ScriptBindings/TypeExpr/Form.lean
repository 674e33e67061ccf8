import ScriptBindings.Bracket.Cut
import ScriptBindings.Text.Identifier

/-! The outermost form of a union member, found without reading its parts.
The forms are tried in a fixed order, and each part that is left to read is
shorter than the member. -/
namespace ScriptBindings.TypeExpr

open Text ScriptBindings.Bracket

/-- A member is in parentheses, has a modifier, is an array or the
application of a name to arguments, or is plain. -/
inductive Form where
  | grouped (inside : List Char)
  | readonlyOf (rest : List Char)
  | keyOf (target : List Char)
  | array (element : List Char)
  | applied (name argument : List Char)
  | plain
  deriving DecidableEq, Repr

/-- The inside, if one pair of parentheses encloses the whole text. -/
def grouped? (text : List Char) : Except Fault (Option (List Char)) :=
  if text.head? == some '(' then do
    match ← group? text with
    | some (inside, []) => return some inside
    | _ => return none
  else
    return none

/-- What stands before a final `[]`, unless it is blank. -/
def element? (text : List Char) : Option (List Char) :=
  match before? ['[', ']'] text with
  | some element => if (trim element).isEmpty then none else some element
  | none => none

/-- The name and the argument text of `Name<argument>`, where the name may
be dotted and the angle brackets reach to the end of the text. -/
def application? (text : List Char) : Except Fault (Option (List Char × List Char)) :=
  let name := trimEnd (text.takeWhile (· != '<'))
  if (name.splitOn '.').all isName then do
    match ← group? (text.dropWhile (· != '<')) with
    | some (argument, []) => return some (name, argument)
    | _ => return none
  else
    return none

def Form.of (text : List Char) : Except Fault Form := do
  match ← grouped? text with
  | some inside => return .grouped inside
  | none =>
      match afterWord? "readonly" text with
      | some rest => return .readonlyOf rest
      | none =>
          match afterWord? "keyof" text with
          | some target => return .keyOf target
          | none =>
              match element? text with
              | some element => return .array element
              | none =>
                  match ← application? text with
                  | some (name, argument) => return .applied name argument
                  | none => return .plain

/-- The texts a form leaves to read. -/
def Form.parts : Form → List (List Char)
  | .grouped inside => [inside]
  | .readonlyOf rest => [rest]
  | .keyOf target => [target]
  | .array element => [element]
  | .applied _ argument => [argument]
  | .plain => []

theorem length_grouped?_lt {text inside : List Char} (h : grouped? text = .ok (some inside)) :
    inside.length < text.length := by
  simp only [grouped?] at h
  split at h
  · cases hg : group? text with
    | error e => simp [hg, bind, Except.bind] at h
    | ok found =>
        simp only [hg, bind, Except.bind] at h
        split at h
        · simp only [pure, Except.pure, Except.ok.injEq, Option.some.injEq] at h
          subst h
          have := group?_length hg
          omega
        · simp [pure, Except.pure] at h
  · simp [pure, Except.pure] at h

theorem length_element?_lt {text element : List Char} (h : element? text = some element) :
    element.length < text.length := by
  simp only [element?] at h
  split at h
  · next rest hs =>
      split at h
      · simp at h
      · simp only [Option.some.injEq] at h
        subst h
        rw [before?_eq_some_iff.1 hs, List.length_append, List.length_cons]
        omega
  · simp at h

theorem length_application?_lt {text name argument : List Char}
    (h : application? text = .ok (some (name, argument))) : argument.length < text.length := by
  simp only [application?] at h
  split at h
  · cases hg : group? (text.dropWhile (· != '<')) with
    | error e => simp [hg, bind, Except.bind] at h
    | ok found =>
        simp only [hg, bind, Except.bind] at h
        split at h
        · simp only [pure, Except.pure, Except.ok.injEq, Option.some.injEq, Prod.mk.injEq] at h
          obtain ⟨-, rfl⟩ := h
          have := group?_length hg
          have := length_dropWhile_le (· != '<') text
          omega
        · simp [pure, Except.pure] at h
  · simp [pure, Except.pure] at h

/-- Reading the parts of a form reads less than the text it was found in. -/
theorem Form.length_lt {text part : List Char} {form : Form} (h : Form.of text = .ok form)
    (member : part ∈ form.parts) : part.length < text.length := by
  simp only [Form.of] at h
  cases hg : grouped? text with
  | error e => simp [hg, bind, Except.bind] at h
  | ok inside =>
      simp only [hg, bind, Except.bind, pure, Except.pure] at h
      split at h
      · simp only [Except.ok.injEq] at h
        subst h
        simp only [parts, List.mem_singleton] at member
        subst member
        exact length_grouped?_lt hg
      · split at h
        · next hw =>
            simp only [Except.ok.injEq] at h
            subst h
            simp only [parts, List.mem_singleton] at member
            subst member
            exact length_afterWord?_lt hw
        · split at h
          · next hw =>
              simp only [Except.ok.injEq] at h
              subst h
              simp only [parts, List.mem_singleton] at member
              subst member
              exact length_afterWord?_lt hw
          · split at h
            · next he =>
                simp only [Except.ok.injEq] at h
                subst h
                simp only [parts, List.mem_singleton] at member
                subst member
                exact length_element?_lt he
            · cases ha : application? text with
              | error e => simp [ha] at h
              | ok found =>
                  simp only [ha] at h
                  split at h
                  · simp only [Except.ok.injEq] at h
                    subst h
                    simp only [parts, List.mem_singleton] at member
                    subst member
                    exact length_application?_lt ha
                  · simp only [Except.ok.injEq] at h
                    subst h
                    simp [parts] at member

end ScriptBindings.TypeExpr
