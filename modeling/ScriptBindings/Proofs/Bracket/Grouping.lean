import ScriptBindings.Bracket.Cut
import ScriptBindings.Proofs.Bracket.Balance

/-! Groups of balanced texts. A bracket that a balanced text begins with is
found closed, and a balanced text between a pair of brackets is what the
pair encloses. -/
namespace ScriptBindings.Bracket

open Outcomes Shape

variable {text rest after inside : List Char}

namespace Shape

/-- Only a closing bracket of the right kind leads out of the last open
bracket. -/
theorem step_kinds_eq_nil {s next : Shape} {c : Char} (h : s.step c = some next)
    (hNext : next.kinds = []) :
    s.kinds = [] ∨ ∃ kind, s = code [kind] s.arrow ∧ closes? s.arrow c = some kind := by
  rcases step_eq_some_iff.mp h with ⟨quote, escaped, -, rfl⟩ | ⟨-, -, rfl⟩ |
    ⟨hLiteral, -, left, hLeft, rfl⟩
  · unfold stepLiteral at hNext
    split_ifs at hNext <;> exact Or.inl hNext
  · exact Or.inl hNext
  · rcases stepKinds_eq_some_iff.mp hLeft with ⟨kind, -, rfl⟩ | ⟨-, -, rfl⟩ |
      ⟨kind, -, hCloses, hKinds⟩
    · simp [code] at hNext
    · exact Or.inl hNext
    · have hLeftNil : left = [] := hNext
      subst hLeftNil
      exact Or.inr ⟨kind, eq_code hKinds hLiteral, hCloses⟩

/-- What closes a bracket is a closing character, and an angle is not closed
by the end of an arrow. -/
theorem closing?_of_closes? {arrow : Bool} {c : Char} {kind : Bracket}
    (h : closes? arrow c = some kind) :
    closing? c = some kind ∧ (kind = .angle → arrow = false) := by
  unfold closes? at h
  split at h
  · cases h
  · next hArrow =>
      refine ⟨h, fun hKind => ?_⟩
      rw [hKind, Cursor.closing?_eq_angle_iff] at h
      simpa [h] using hArrow

end Shape

/-- One step of the search for the end of a group: it ends where the last
bracket closes. -/
theorem groupFrom_cons {k next : Cursor} {c : Char} (hStep : k.step c = .ok next) :
    groupFrom k (c :: rest) =
      if next.openBrackets.isEmpty && k.depth == 1 && k.inCode then .ok (some ([], rest))
      else (groupFrom next rest).map (·.map fun (inside, after) => (c :: inside, after)) := by
  simp only [groupFrom, hStep, ok_bind, pure_eq_ok]
  split
  · rfl
  · cases groupFrom next rest <;> rfl

/-- While the brackets of a group are open, it goes on, and the character
belongs to its inside. -/
theorem groupFrom_cons_of_ne_nil {k next : Cursor} {c : Char} (hStep : k.step c = .ok next)
    (hOpen : next.shape.kinds ≠ []) :
    groupFrom k (c :: rest) =
      (groupFrom next rest).map (·.map fun (inside, after) => (c :: inside, after)) := by
  have hEmpty : next.openBrackets.isEmpty = false := by simpa [Cursor.shape] using hOpen
  rw [groupFrom_cons hStep, hEmpty, Bool.false_and, Bool.false_and, if_neg Bool.false_ne_true]

/-- The step at which the group ends, told by the shape before and after
it. -/
theorem groupFrom_cons_of_closes {k next : Cursor} {c : Char} {kind : Bracket} {arrow : Bool}
    (hStep : k.step c = .ok next) (hShape : k.shape = code [kind] arrow)
    (hNext : next.shape.kinds = []) : groupFrom k (c :: rest) = .ok (some ([], rest)) := by
  have hEmpty : next.openBrackets.isEmpty = true := by simpa [Cursor.shape] using hNext
  have hDepth : k.depth = 1 := by rw [← k.length_shape_kinds, hShape]; rfl
  have hCode : k.inCode = true := by
    have hLiteral := congrArg literal hShape
    simpa [Cursor.shape, code, Cursor.inCode] using hLiteral
  rw [groupFrom_cons hStep, hEmpty, hDepth, hCode]
  rfl

/-- Passing over a text that is inside the brackets of a group. -/
theorem groupFrom_append {kind : Bracket} {k : Cursor} {s last : Shape}
    (hShape : k.shape = s.under [kind]) (hRun : s.run inside = some last) :
    ∃ middle : Cursor, middle.shape = last.under [kind] ∧
      groupFrom k (inside ++ rest) =
        (groupFrom middle rest).map (·.map fun (within, after) => (inside ++ within, after)) := by
  induction inside generalizing k s with
  | nil =>
      cases hRun
      refine ⟨k, hShape, ?_⟩
      cases hRest : groupFrom k rest with
      | error fault => simp [hRest, Except.map]
      | ok found => cases found <;> simp [hRest, Except.map]
  | cons c tail ih =>
      obtain ⟨t, hStep, hTail⟩ := Option.bind_eq_some_iff.mp hRun
      obtain ⟨next, hNext, hSame⟩ := Cursor.step_of_shape (hShape ▸ step_under [kind] hStep)
      obtain ⟨middle, hMiddle, hRest⟩ := ih hSame hTail
      have hOpen : next.shape.kinds ≠ [] := by simp [hSame, Shape.under]
      refine ⟨middle, hMiddle, ?_⟩
      rw [List.cons_append, groupFrom_cons_of_ne_nil hNext hOpen, hRest]
      cases groupFrom middle rest with
      | error fault => rfl
      | ok found => cases found <;> rfl

/-- A text that begins with a group is cut into the inside of the group and
the rest. -/
theorem group?_eq_some {opener closer : Char} {kind : Bracket} (h : Balanced inside)
    (hOpener : opening? opener = some kind) (hCloser : closing? closer = some kind)
    (hLast : kind = .angle → inside.getLast? ≠ some '=') :
    group? (opener :: (inside ++ closer :: after)) = .ok (some (inside, after)) := by
  obtain ⟨k, hOpening, hShape⟩ := Cursor.step_of_shape
    (show Cursor.start.shape.step opener = _ from step_opening [] false hOpener)
  have hInside : (code [] false).run inside = _ := h.run []
  obtain ⟨middle, hMiddle, hGroup⟩ :=
    groupFrom_append (show k.shape = (code [] false).under [kind] from hShape) hInside
  rw [code_under, List.nil_append] at hMiddle
  have hClosing := step_closing [] hCloser (fun hKind => beq_eq_false_iff_ne.mpr (hLast hKind))
  obtain ⟨next, hStep, hNext⟩ := Cursor.step_of_shape (hMiddle.symm ▸ hClosing)
  have hEnd : groupFrom middle (closer :: after) = .ok (some ([], after)) :=
    groupFrom_cons_of_closes hStep hMiddle (by rw [hNext]; rfl)
  simp only [group?, hOpening, ok_bind]
  rw [hGroup, hEnd]
  simp [Except.map]

/-- The brackets of a group that is found enclose a balanced text. -/
theorem groupFrom_some {kind : Bracket} {k : Cursor} {s : Shape}
    (hShape : k.shape = s.under [kind]) (h : groupFrom k text = .ok (some (inside, after))) :
    ∃ closer arrow, text = inside ++ closer :: after ∧
      s.run inside = some (code [] arrow) ∧ closes? arrow closer = some kind := by
  induction text generalizing k s inside with
  | nil =>
      obtain ⟨_, -, h⟩ := bind_ok h
      cases h
  | cons c rest ih =>
      obtain ⟨next, hStep, -⟩ := bind_ok h
      have hNext := Cursor.step_ok hStep
      rw [hShape] at hNext
      by_cases hOpen : next.shape.kinds = []
      · rcases step_kinds_eq_nil hNext hOpen with hNil | ⟨closed, hOne, hCloses⟩
        · simp [Shape.under] at hNil
        · rw [groupFrom_cons_of_closes hStep (hShape.trans hOne) hOpen] at h
          cases h
          have hKinds : s.kinds = [] ∧ kind = closed := by
            simpa [Shape.under, code, List.append_eq_singleton_iff] using congrArg kinds hOne
          have hLiteral : s.literal = none := congrArg literal hOne
          refine ⟨c, s.arrow, rfl, ?_, hKinds.2 ▸ hCloses⟩
          exact congrArg some (eq_code hKinds.1 hLiteral)
      · rw [groupFrom_cons_of_ne_nil hStep hOpen] at h
        obtain ⟨found, hFound, hMap⟩ := map_ok h
        obtain ⟨⟨inner, behind⟩, rfl, hPair⟩ := Option.map_eq_some_iff.mp hMap
        cases hPair
        obtain ⟨t, hUnder, hInner⟩ := step_of_under hNext
          (List.length_pos_iff.mpr hOpen)
        obtain ⟨closer, arrow, rfl, hRun, hCloses⟩ := ih hUnder hFound
        exact ⟨closer, arrow, rfl, by simp [run, hInner, hRun], hCloses⟩

/-- A group that was found has its closer behind it, of the kind of its
opener, and is balanced inside. -/
theorem group?_some {opener : Char} {kind : Bracket} (hOpener : opening? opener = some kind)
    (h : group? (opener :: rest) = .ok (some (inside, after))) :
    ∃ closer, rest = inside ++ closer :: after ∧ closing? closer = some kind ∧
      Balanced inside ∧ (kind = .angle → inside.getLast? ≠ some '=') := by
  obtain ⟨k, hOpening, hShape⟩ := Cursor.step_of_shape
    (show Cursor.start.shape.step opener = _ from step_opening [] false hOpener)
  simp only [group?, hOpening, ok_bind] at h
  obtain ⟨closer, arrow, hRest, hRun, hCloses⟩ :=
    groupFrom_some (show k.shape = (code [] false).under [kind] from hShape) h
  obtain ⟨hCloser, hAngle⟩ := closing?_of_closes? hCloses
  have hInside : Balanced inside := balanced_iff.mpr ⟨arrow, hRun⟩
  refine ⟨closer, hRest, hCloser, hInside, fun hKind => ?_⟩
  have hArrow := hInside.run []
  rw [hRun] at hArrow
  have hSame : arrow = (inside.getLast? == some '=') :=
    congrArg Shape.arrow (Option.some.inj hArrow)
  exact beq_eq_false_iff_ne.mp (hSame ▸ hAngle hKind)

/-- What stands behind a group of a balanced text is balanced. -/
theorem Balanced.of_group?_some {opener : Char} {kind : Bracket} (h : Balanced (opener :: rest))
    (hOpener : opening? opener = some kind)
    (hGroup : group? (opener :: rest) = .ok (some (inside, after))) :
    Balanced inside ∧ Balanced after := by
  obtain ⟨closer, rfl, hCloser, hInside, hLast⟩ := group?_some hOpener hGroup
  have hClosed := hInside.group hOpener hCloser hLast
  have hNoArrow : (opener :: (inside ++ [closer])).getLast? ≠ some '=' := by
    have hDiffers := (quote_arrow_of_closing hCloser).2.2
    simpa [List.getLast?_cons] using hDiffers
  have hSplit : opener :: (inside ++ closer :: after) =
      opener :: (inside ++ [closer]) ++ after := by simp
  rw [hSplit, hClosed.append_iff hNoArrow] at h
  exact ⟨hInside, h⟩

/-- Where the text goes back to the depth of the opener, the search finds a
group and does not run into a fault before it. -/
theorem exists_groupFrom {kind : Bracket} {k : Cursor} {s last : Shape}
    (hShape : k.shape = s.under [kind]) (h : k.shape.run text = some last)
    (hLast : last.kinds = []) : ∃ inside after, groupFrom k text = .ok (some (inside, after)) := by
  induction text generalizing k s with
  | nil =>
      cases h
      simp [hShape, Shape.under] at hLast
  | cons c rest ih =>
      obtain ⟨t, hStep, hRest⟩ := Option.bind_eq_some_iff.mp h
      obtain ⟨next, hNext, rfl⟩ := Cursor.step_of_shape hStep
      by_cases hOpen : next.shape.kinds = []
      · rcases step_kinds_eq_nil hStep hOpen with hNil | ⟨closed, hOne, -⟩
        · simp [hShape, Shape.under] at hNil
        · exact ⟨[], rest, groupFrom_cons_of_closes hNext hOne hOpen⟩
      · rw [hShape] at hStep
        obtain ⟨inner, hInner, -⟩ := step_of_under hStep (List.length_pos_iff.mpr hOpen)
        obtain ⟨inside, after, hFound⟩ := ih hInner hRest
        exact ⟨c :: inside, after, by
          rw [groupFrom_cons_of_ne_nil hNext hOpen, hFound]; rfl⟩

/-- A balanced text that begins with a bracket begins with a group. -/
theorem exists_group? {opener : Char} {kind : Bracket} (h : Balanced (opener :: rest))
    (hOpener : opening? opener = some kind) :
    ∃ inside after, group? (opener :: rest) = .ok (some (inside, after)) := by
  obtain ⟨k, hOpening, hShape⟩ := Cursor.step_of_shape
    (show Cursor.start.shape.step opener = _ from step_opening [] false hOpener)
  obtain ⟨arrow, hRun⟩ := balanced_iff.mp h
  have hRest : k.shape.run rest = some (code [] arrow) := by
    rw [hShape]
    simpa [run, start, step_opening [] false hOpener] using hRun
  simp only [group?, hOpening, ok_bind]
  exact exists_groupFrom (show k.shape = (code [] false).under [kind] from hShape) hRest rfl

end ScriptBindings.Bracket
