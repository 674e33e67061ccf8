import ScriptBindings.Bracket.Walk
import ScriptBindings.Proofs.Outcomes

/-! What decides how a walk goes on: the kinds of the open brackets, the
literal it is in and whether the last character was `=`. Offsets only serve
the faults. So a text can be walked with other brackets around it, and a
walk that never closes what was around it can be repeated without. -/
namespace ScriptBindings.Bracket

open Outcomes

structure Shape where
  kinds : List Bracket
  /-- The quote of the literal and whether the next character is escaped. -/
  literal : Option (Char × Bool)
  arrow : Bool
  deriving DecidableEq, Repr

namespace Shape

/-- Outside literals, with these brackets open from the innermost
outwards. -/
def code (kinds : List Bracket) (arrow : Bool) : Shape :=
  ⟨kinds, none, arrow⟩

def start : Shape :=
  code [] false

def atTop (s : Shape) : Bool :=
  s.literal.isNone && s.kinds.isEmpty

def stepLiteral (s : Shape) (quote : Char) (escaped : Bool) (c : Char) : Shape :=
  if escaped then { s with literal := some (quote, false) }
  else if c == '\\' then { s with literal := some (quote, true) }
  else if c == quote then { s with literal := none, arrow := c == '=' }
  else s

/-- The kind of bracket that a character closes. After `=` a `>` closes
none. -/
def closes? (arrow : Bool) (c : Char) : Option Bracket :=
  if arrow && c == '>' then none else closing? c

/-- The brackets open after `c`, unless it closes one that is not
innermost. -/
def stepKinds (arrow : Bool) (kinds : List Bracket) (c : Char) : Option (List Bracket) :=
  match opening? c, closes? arrow c, kinds with
  | some kind, _, _ => some (kind :: kinds)
  | none, none, _ => some kinds
  | none, some _, [] => none
  | none, some kind, opened :: outer => if opened == kind then some outer else none

def step (s : Shape) (c : Char) : Option Shape :=
  match s.literal with
  | some (quote, escaped) => some (s.stepLiteral quote escaped c)
  | none =>
      if isQuote c then some { s with literal := some (c, false) }
      else (stepKinds s.arrow s.kinds c).map fun kinds => code kinds (c == '=')

def run : Shape → List Char → Option Shape
  | s, [] => some s
  | s, c :: rest => (s.step c).bind (·.run rest)

/-- The shape with the brackets `outer` open around it. -/
def under (outer : List Bracket) (s : Shape) : Shape :=
  { s with kinds := s.kinds ++ outer }

@[simp] theorem code_under (outer kinds : List Bracket) (arrow : Bool) :
    (code kinds arrow).under outer = code (kinds ++ outer) arrow := rfl

/-- A shape outside of literals is told by its brackets and by whether an
equals sign was read last. -/
theorem eq_code {s : Shape} {kinds : List Bracket} (hKinds : s.kinds = kinds)
    (hLiteral : s.literal = none) : s = code kinds s.arrow := by
  cases s
  simp_all [code]

theorem run_append (s : Shape) (first second : List Char) :
    s.run (first ++ second) = (s.run first).bind (·.run second) := by
  induction first generalizing s with
  | nil => rfl
  | cons c rest ih =>
      simp only [List.cons_append, run]
      cases s.step c with
      | none => rfl
      | some next => exact ih next

theorem run_singleton (s : Shape) (c : Char) : s.run [c] = s.step c :=
  Option.bind_fun_some _

/-- At the top there is nothing but the equals sign to remember. So runs
from the top differ in this alone. -/
theorem atTop_iff {s : Shape} : s.atTop = true ↔ s = code [] s.arrow := by
  cases s with
  | mk kinds literal arrow => cases literal <;> cases kinds <;> simp [atTop, code]

/-- A character opens a bracket, leaves all as they are or closes the
innermost. -/
theorem stepKinds_eq_some_iff {kinds left : List Bracket} {arrow : Bool} {c : Char} :
    stepKinds arrow kinds c = some left ↔
      (∃ kind, opening? c = some kind ∧ left = kind :: kinds) ∨
      (opening? c = none ∧ closes? arrow c = none ∧ left = kinds) ∨
      (∃ kind, opening? c = none ∧ closes? arrow c = some kind ∧ kinds = kind :: left) := by
  unfold stepKinds
  cases opening? c with
  | some kind => simp [@eq_comm _ _ left]
  | none =>
      cases closes? arrow c with
      | none => simp [@eq_comm _ _ left]
      | some kind =>
          cases kinds with
          | nil => simp
          | cons opened rest => simp [@eq_comm _ kind]

/-- A step looks at the innermost bracket only. What lies below does not
change it. -/
theorem stepKinds_under {outer kinds left : List Bracket} {arrow : Bool} {c : Char}
    (h : stepKinds arrow kinds c = some left) :
    stepKinds arrow (kinds ++ outer) c = some (left ++ outer) := by
  rw [stepKinds_eq_some_iff] at h ⊢
  rcases h with ⟨kind, hOpens, rfl⟩ | ⟨hOpens, hCloses, rfl⟩ | ⟨kind, hOpens, hCloses, rfl⟩
  · exact Or.inl ⟨kind, hOpens, rfl⟩
  · exact Or.inr (Or.inl ⟨hOpens, hCloses, rfl⟩)
  · exact Or.inr (Or.inr ⟨kind, hOpens, hCloses, rfl⟩)

/-- A character that closes none of the brackets `outer` does not need
them. -/
theorem stepKinds_of_under {outer kinds left : List Bracket} {arrow : Bool} {c : Char}
    (h : stepKinds arrow (kinds ++ outer) c = some left) (hLeft : outer.length ≤ left.length) :
    ∃ inner, left = inner ++ outer ∧ stepKinds arrow kinds c = some inner := by
  simp only [stepKinds_eq_some_iff] at h ⊢
  rcases h with ⟨kind, hOpens, rfl⟩ | ⟨hOpens, hCloses, rfl⟩ | ⟨kind, hOpens, hCloses, hKinds⟩
  · exact ⟨kind :: kinds, rfl, Or.inl ⟨kind, hOpens, rfl⟩⟩
  · exact ⟨kinds, rfl, Or.inr (Or.inl ⟨hOpens, hCloses, rfl⟩)⟩
  · cases kinds with
    | nil =>
        rw [List.nil_append] at hKinds
        rw [hKinds, List.length_cons] at hLeft
        omega
    | cons opened inner =>
        obtain ⟨rfl, rfl⟩ := List.cons.inj hKinds
        exact ⟨inner, rfl, Or.inr (Or.inr ⟨opened, hOpens, hCloses, rfl⟩)⟩

theorem stepLiteral_under (outer : List Bracket) (s : Shape) (quote : Char) (escaped : Bool)
    (c : Char) :
    (s.under outer).stepLiteral quote escaped c = (s.stepLiteral quote escaped c).under outer := by
  unfold stepLiteral
  split_ifs <;> rfl

/-- A step passes over a character of a literal, enters one or changes the
brackets. -/
theorem step_eq_some_iff {s next : Shape} {c : Char} :
    s.step c = some next ↔
      (∃ quote escaped, s.literal = some (quote, escaped) ∧
        next = s.stepLiteral quote escaped c) ∨
      (s.literal = none ∧ isQuote c = true ∧ next = { s with literal := some (c, false) }) ∨
      (s.literal = none ∧ isQuote c = false ∧
        ∃ left, stepKinds s.arrow s.kinds c = some left ∧ next = code left (c == '=')) := by
  unfold step
  cases hLiteral : s.literal with
  | some l =>
      constructor
      · intro h
        exact Or.inl ⟨l.1, l.2, rfl, (Option.some.inj h).symm⟩
      · rintro (⟨quote, escaped, hSame, rfl⟩ | ⟨hNone, -⟩ | ⟨hNone, -⟩)
        · cases hSame
          rfl
        · cases hNone
        · cases hNone
  | none =>
      cases isQuote c with
      | true => simp [@eq_comm _ next]
      | false => simp [@eq_comm _ next, Option.map_eq_some_iff]

/-- Brackets around a step do not change it. With this a text is read within
a group as it is by itself. -/
theorem step_under (outer : List Bracket) {s next : Shape} {c : Char}
    (h : s.step c = some next) : (s.under outer).step c = some (next.under outer) := by
  rw [step_eq_some_iff] at h ⊢
  rcases h with ⟨quote, escaped, hLiteral, rfl⟩ | ⟨hLiteral, hQuote, rfl⟩ |
    ⟨hLiteral, hQuote, left, hLeft, rfl⟩
  · exact Or.inl ⟨quote, escaped, hLiteral, (stepLiteral_under outer s quote escaped c).symm⟩
  · exact Or.inr (Or.inl ⟨hLiteral, hQuote, rfl⟩)
  · exact Or.inr (Or.inr ⟨hLiteral, hQuote, left ++ outer, stepKinds_under hLeft, rfl⟩)

/-- A step that stays inside the brackets around it needs none of them. The
brackets around can therefore be taken away. -/
theorem step_of_under {outer : List Bracket} {s wideNext : Shape} {c : Char}
    (h : (s.under outer).step c = some wideNext) (hDepth : outer.length ≤ wideNext.kinds.length) :
    ∃ next, wideNext = next.under outer ∧ s.step c = some next := by
  simp only [step_eq_some_iff] at h ⊢
  rcases h with ⟨quote, escaped, hLiteral, rfl⟩ | ⟨hLiteral, hQuote, rfl⟩ |
    ⟨hLiteral, hQuote, left, hLeft, rfl⟩
  · exact ⟨s.stepLiteral quote escaped c, stepLiteral_under outer s quote escaped c,
      Or.inl ⟨quote, escaped, hLiteral, rfl⟩⟩
  · exact ⟨{ s with literal := some (c, false) }, rfl, Or.inr (Or.inl ⟨hLiteral, hQuote, rfl⟩)⟩
  · obtain ⟨inner, rfl, hInner⟩ := stepKinds_of_under hLeft hDepth
    exact ⟨code inner (c == '='), rfl, Or.inr (Or.inr ⟨hLiteral, hQuote, inner, hInner, rfl⟩)⟩

/-- A run may be moved below open brackets without a change, which is how a
group is read as a text of its own. -/
theorem run_under (outer : List Bracket) {s last : Shape} {text : List Char}
    (h : s.run text = some last) : (s.under outer).run text = some (last.under outer) := by
  induction text generalizing s with
  | nil =>
      cases h
      rfl
  | cons c rest ih =>
      obtain ⟨next, hStep, hRest⟩ := Option.bind_eq_some_iff.mp h
      simp [run, step_under outer hStep, ih hRest]

end Shape

namespace Cursor

def shape (k : Cursor) : Shape where
  kinds := k.openBrackets.map (·.1)
  literal := k.literal.map fun l => (l.quote, l.escaped)
  arrow := k.previous == '='

theorem shape_atTop (k : Cursor) : k.shape.atTop = k.atTop := by
  simp [shape, Shape.atTop, atTop, inCode, List.isEmpty_map]

/-- The depth of a cursor is the number of its open brackets. -/
theorem length_shape_kinds (k : Cursor) : k.shape.kinds.length = k.depth := by
  simp [shape, depth]

/-- The end of a text is accepted at the top and nowhere else. -/
theorem finish_ok_iff {k : Cursor} : k.finish = .ok () ↔ k.atTop = true := by
  unfold finish atTop inCode
  cases k.literal with
  | some l => simp
  | none => cases k.openBrackets <;> simp

theorem closing?_eq_angle_iff {c : Char} : closing? c = some .angle ↔ c = '>' := by
  unfold closing?
  split <;> simp_all

theorem closing?_eq_round_iff {c : Char} : closing? c = some .round ↔ c = ')' := by
  unfold closing?
  split <;> simp_all

/-- The kinds of the brackets open after a character follow from those
before. -/
theorem stepBrackets_kinds (k : Cursor) (c : Char) :
    (k.stepBrackets c).toOption.map (·.map (·.1)) =
      Shape.stepKinds k.shape.arrow k.shape.kinds c := by
  unfold stepBrackets Shape.stepKinds Shape.closes?
  cases opening? c with
  | some kind => rfl
  | none =>
      by_cases hAngle : c = '>'
      · subst hAngle
        cases hArrow : k.previous == '=' <;> cases hOpen : k.openBrackets with
        | nil => simp [closing?, shape, hArrow, hOpen, Except.toOption]
        | cons innermost rest =>
            by_cases hSame : innermost.1 = .angle <;>
              simp [closing?, shape, hArrow, hOpen, hSame, Except.toOption]
      · have hKind : closing? c ≠ some .angle := mt closing?_eq_angle_iff.mp hAngle
        cases hClosing : closing? c with
        | none => simp [hAngle, shape, Except.toOption]
        | some kind =>
            have hOther : kind ≠ .angle := fun h => hKind (by rw [hClosing, h])
            cases hOpen : k.openBrackets with
            | nil => simp [hAngle, hOther, shape, hOpen, Except.toOption]
            | cons innermost rest =>
                by_cases hSame : innermost.1 = kind <;>
                  simp [hAngle, hOther, shape, hOpen, hSame, Except.toOption]

/-- Inside of a literal the cursor and its shape step alike. -/
theorem stepLiteral_shape (k : Cursor) (l : OpenLiteral) (c : Char) (h : k.literal = some l) :
    (k.stepLiteral l c).shape = k.shape.stepLiteral l.quote l.escaped c := by
  unfold stepLiteral Shape.stepLiteral
  split_ifs <;> simp [shape, h]

/-- A step of a walk is a step of its shape. -/
theorem step_shape (k : Cursor) (c : Char) :
    (k.step c).toOption.map shape = k.shape.step c := by
  unfold step Shape.step
  cases hLiteral : k.literal with
  | some l =>
      have hShape : k.shape.literal = some (l.quote, l.escaped) := by simp [shape, hLiteral]
      simp [hShape, Except.toOption, stepLiteral_shape k l c hLiteral]
  | none =>
      have hShape : k.shape.literal = none := by simp [shape, hLiteral]
      rw [hShape, ← stepBrackets_kinds]
      by_cases hQuote : isQuote c = true
      · simp [hQuote, Except.toOption, shape]
      · cases k.stepBrackets c <;>
          simp [hQuote, Except.toOption, Except.map, shape, Shape.code]

/-- A step of the cursor is one of its shape, so that faults and offsets may
be left out of what follows. -/
theorem step_ok {k next : Cursor} {c : Char} (h : k.step c = .ok next) :
    k.shape.step c = some next.shape := by
  rw [← step_shape, h]
  rfl

/-- And a step of the shape is one of the cursor, so that the two go through
every text together. -/
theorem step_of_shape {k : Cursor} {c : Char} {next : Shape} (h : k.shape.step c = some next) :
    ∃ reached, k.step c = .ok reached ∧ reached.shape = next := by
  rw [← step_shape] at h
  obtain ⟨reached, hStep, rfl⟩ := Option.map_eq_some_iff.mp h
  cases hOutcome : k.step c with
  | error fault => simp [hOutcome, Except.toOption] at hStep
  | ok other => exact ⟨other, rfl, by simp_all [Except.toOption]⟩

/-- A run of the cursor is one of its shape. -/
theorem run_ok {k last : Cursor} {text : List Char} (h : k.run text = .ok last) :
    k.shape.run text = some last.shape := by
  induction text generalizing k with
  | nil =>
      cases h
      rfl
  | cons c rest ih =>
      obtain ⟨next, hStep, hRest⟩ := bind_ok h
      simp [Shape.run, step_ok hStep, ih hRest]

/-- Conversely the cursor can follow every run of its shape, which is how a
text is shown to be read without a fault. -/
theorem run_of_shape {k : Cursor} {text : List Char} {last : Shape}
    (h : k.shape.run text = some last) :
    ∃ reached, k.run text = .ok reached ∧ reached.shape = last := by
  induction text generalizing k with
  | nil =>
      cases h
      exact ⟨k, rfl, rfl⟩
  | cons c rest ih =>
      obtain ⟨shape, hStep, hRest⟩ := Option.bind_eq_some_iff.mp h
      obtain ⟨next, hNext, rfl⟩ := step_of_shape hStep
      obtain ⟨reached, hRun, hShape⟩ := ih hRest
      exact ⟨reached, by simp [run, hNext, hRun], hShape⟩

end Cursor

theorem step_offset {k reached : Cursor} {c : Char} (h : k.step c = .ok reached) :
    reached.offset = k.offset + c.utf8Size := by
  unfold Cursor.step at h
  split at h
  · cases h
    unfold Cursor.stepLiteral
    dsimp only
    split_ifs <;> rfl
  · split at h
    · cases h
      rfl
    · obtain ⟨openBrackets, -, rfl⟩ := map_ok h
      rfl

end ScriptBindings.Bracket
