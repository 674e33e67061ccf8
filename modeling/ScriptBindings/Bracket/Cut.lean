import ScriptBindings.Bracket.Walk
import ScriptBindings.Text.Measure

/-! Cuts of a text at the characters outside all brackets and literals. Each
cut walks as far as it needs: `splitTop` to the end, so that it refuses a
text that is not balanced, and `breakTop`, `group?` and `partner?` to the
place they look for, so that a fault behind it is not seen. -/
namespace ScriptBindings.Bracket

def consFirst (c : Char) : List (List Char) → List (List Char)
  | [] => [[c]]
  | piece :: pieces => (c :: piece) :: pieces

def splitTopFrom (separator : Char) : Cursor → List Char → Except Fault (List (List Char))
  | k, [] => do
      k.finish
      return [[]]
  | k, c :: rest => do
      let pieces ← splitTopFrom separator (← k.step c) rest
      return if k.atTop && c == separator then [] :: pieces else consFirst c pieces

/-- The pieces of a balanced text between the separators outside all
brackets. -/
def splitTop (separator : Char) (text : List Char) : Except Fault (List (List Char)) :=
  splitTopFrom separator .start text

def breakTopFrom (accepts : Char → List Char → Bool) :
    Cursor → List Char → Except Fault (Option (List Char × List Char))
  | k, [] => do
      k.finish
      return none
  | k, c :: rest => do
      let next ← k.step c
      if k.atTop && next.openBrackets.isEmpty && accepts c rest then
        return some ([], rest)
      else
        return (← breakTopFrom accepts next rest).map fun (before, after) => (c :: before, after)

/-- The text before and after the first character outside all brackets that
is accepted. The test also sees what follows the character. -/
def breakTop (accepts : Char → List Char → Bool) (text : List Char) :
    Except Fault (Option (List Char × List Char)) :=
  breakTopFrom accepts .start text

def groupFrom : Cursor → List Char → Except Fault (Option (List Char × List Char))
  | k, [] => do
      k.finish
      return none
  | k, c :: rest => do
      let next ← k.step c
      if next.openBrackets.isEmpty && k.depth == 1 && k.inCode then
        return some ([], rest)
      else
        return (← groupFrom next rest).map fun (inside, after) => (c :: inside, after)

/-- The inside of the bracket group a text begins with, and what follows its
closing bracket. -/
def group? : List Char → Except Fault (Option (List Char × List Char))
  | [] => .ok none
  | opener :: rest => do groupFrom (← Cursor.start.step opener) rest

/-- The offset of the bracket that closes the one at `opened`: where
`group?` ends the group that begins there. The opening bracket is one byte
long. -/
def partner? (text : List Char) (opened : Nat) : Except Fault (Option Nat) := do
  let found ← group? (Text.slice opened (Text.byteCount text) text)
  return found.map fun (inside, _) => opened + 1 + Text.byteCount inside

/-- Whether `=>` occurs outside all brackets. -/
def hasArrow (text : List Char) : Except Fault Bool := do
  return (← breakTop (fun c rest => c == '=' && rest.head? == some '>') text).isSome

theorem splitTopFrom_length {separator : Char} {k : Cursor} {text piece : List Char}
    {pieces : List (List Char)} (h : splitTopFrom separator k text = .ok pieces)
    (member : piece ∈ pieces) : piece.length ≤ text.length := by
  induction text generalizing k pieces piece with
  | nil =>
      simp only [splitTopFrom] at h
      cases hf : k.finish with
      | error e => simp [hf, bind, Except.bind] at h
      | ok u =>
          simp only [hf, bind, Except.bind, pure, Except.pure, Except.ok.injEq] at h
          subst h
          simp_all
  | cons c rest ih =>
      simp only [splitTopFrom] at h
      cases hs : k.step c with
      | error e => simp [hs, bind, Except.bind] at h
      | ok next =>
          cases hp : splitTopFrom separator next rest with
          | error e => simp [hs, hp, bind, Except.bind] at h
          | ok later =>
              simp only [hs, hp, bind, Except.bind, pure, Except.pure, Except.ok.injEq] at h
              subst h
              have bound : ∀ p ∈ later, p.length ≤ rest.length := fun p hm => ih hp hm
              split at member
              · rcases List.mem_cons.1 member with rfl | hm
                · simp
                · exact Nat.le_succ_of_le (bound _ hm)
              · cases later with
                | nil => simp_all [consFirst]
                | cons first more =>
                    rcases List.mem_cons.1 member with rfl | hm
                    · exact Nat.succ_le_succ (bound _ List.mem_cons_self)
                    · exact Nat.le_succ_of_le (bound _ (List.mem_cons_of_mem _ hm))

theorem groupFrom_length {k : Cursor} {text inside after : List Char}
    (h : groupFrom k text = .ok (some (inside, after))) :
    inside.length + after.length < text.length := by
  induction text generalizing k inside after with
  | nil =>
      simp only [groupFrom] at h
      cases hf : k.finish with
      | error e => simp [hf, bind, Except.bind] at h
      | ok u => simp [hf, bind, Except.bind, pure, Except.pure] at h
  | cons c rest ih =>
      simp only [groupFrom] at h
      cases hs : k.step c with
      | error e => simp [hs, bind, Except.bind] at h
      | ok next =>
          simp only [hs, bind, Except.bind] at h
          split at h
          · simp only [pure, Except.pure, Except.ok.injEq, Option.some.injEq, Prod.mk.injEq] at h
            obtain ⟨rfl, rfl⟩ := h
            simp
          · cases hg : groupFrom next rest with
            | error e => simp [hg] at h
            | ok found =>
                cases found with
                | none => simp [hg, pure, Except.pure] at h
                | some cut =>
                    obtain ⟨inner, more⟩ := cut
                    simp only [hg, pure, Except.pure, Except.ok.injEq, Option.map_some,
                      Option.some.injEq, Prod.mk.injEq] at h
                    obtain ⟨rfl, rfl⟩ := h
                    have := ih hg
                    simp only [List.length_cons]
                    omega

/-- A group has at least its two brackets more than its inside. -/
theorem group?_length {text inside after : List Char}
    (h : group? text = .ok (some (inside, after))) :
    inside.length + after.length + 2 ≤ text.length := by
  cases text with
  | nil => simp [group?] at h
  | cons opener rest =>
      simp only [group?] at h
      cases hs : Cursor.start.step opener with
      | error e => simp [hs, bind, Except.bind] at h
      | ok k =>
          simp only [hs, bind, Except.bind] at h
          have := groupFrom_length h
          simp only [List.length_cons]
          omega

end ScriptBindings.Bracket
