import ScriptBindings.Proofs.Bracket.Faults
import ScriptBindings.Proofs.Bracket.Outside
import ScriptBindings.Proofs.Text.Offsets

/-! The partner of an opening bracket. A text that begins with a bracket is
a group if it nests and nothing shorter that it begins with does, so that
its last character closes its first. The search for the closing bracket
finds the end of the one group that a text begins with, and it fails where
there is none. -/
namespace ScriptBindings.Bracket

open Text Outcomes Shape

variable {text rest inside after : List Char} {opener : Char} {kind : Bracket}

/-! ### Groups -/

/-- A single group: the text begins with a bracket and nests, and no shorter
beginning of it nests. -/
structure IsGroup (text : List Char) : Prop where
  opens : ∃ opener kind rest, text = opener :: rest ∧ opening? opener = some kind
  wellNested : WellNested text
  sole {front : List Char} (hFront : front <+: text) (hNil : front ≠ [])
    (hNested : WellNested front) : front = text

namespace IsGroup

theorem ne_nil (h : IsGroup text) : text ≠ [] := by
  obtain ⟨opener, kind, rest, rfl, -⟩ := h.opens
  exact List.cons_ne_nil opener rest

/-- A text begins with at most one group. -/
theorem unique {first second : List Char} (hFirst : IsGroup first) (hSecond : IsGroup second)
    (hFirstText : first <+: text) (hSecondText : second <+: text) : first = second := by
  rcases List.prefix_or_prefix_of_prefix hFirstText hSecondText with hPrefix | hPrefix
  · exact hSecond.sole hPrefix hFirst.ne_nil hFirst.wellNested
  · exact (hFirst.sole hPrefix hSecond.ne_nil hSecond.wellNested).symm

/-- A nested text in a pair of brackets is a group, unless its last `=`
makes an arrow of the second bracket. -/
theorem of_wellNested {closer : Char} (h : WellNested inside) (hOpener : opening? opener = some kind)
    (hCloser : closing? closer = some kind) (hLast : kind = .angle → inside.getLast? ≠ some '=') :
    IsGroup (opener :: (inside ++ [closer])) where
  opens := ⟨opener, kind, inside ++ [closer], rfl, hOpener⟩
  wellNested :=
    balanced_iff_wellNested.mp
      ((balanced_iff_wellNested.mpr h).group hOpener hCloser hLast)
  sole := by
    intro front hFront hNil hNested
    obtain ⟨first, more, rfl⟩ := List.exists_cons_of_ne_nil hNil
    obtain ⟨rfl, hMore⟩ := List.cons_prefix_cons.mp hFront
    rcases List.prefix_concat_iff.mp hMore with rfl | ⟨behind, rfl⟩
    · rfl
    · -- without the second bracket the first one is still open
      exact absurd (balanced_iff_wellNested.mpr hNested)
        (not_balanced_of_open (balanced_iff_wellNested.mpr h) hOpener)

/-- The last character of a group closes its first, and what is between them
nests. -/
theorem exists_closer (h : IsGroup (opener :: rest)) (hOpener : opening? opener = some kind) :
    ∃ inside closer, rest = inside ++ [closer] ∧ closing? closer = some kind ∧
      WellNested inside ∧ (kind = .angle → inside.getLast? ≠ some '=') := by
  obtain ⟨inside, after, hGroup⟩ :=
    exists_group? (balanced_iff_wellNested.mpr h.wellNested) hOpener
  obtain ⟨closer, rfl, hCloser, hInside, hLast⟩ := group?_some hOpener hGroup
  have hNested := balanced_iff_wellNested.mp hInside
  have hSole : opener :: (inside ++ [closer]) = opener :: (inside ++ closer :: after) := by
    refine h.sole ⟨after, by simp⟩ (List.cons_ne_nil _ _) ?_
    exact (of_wellNested hNested hOpener hCloser hLast).wellNested
  rw [List.cons_inj_right, List.append_cancel_left_eq] at hSole
  obtain ⟨-, rfl⟩ := List.cons.inj hSole
  exact ⟨inside, closer, rfl, hCloser, hNested, hLast⟩

/-- Once a group is known to be one, what its closer and its inside are is
determined. -/
theorem closed {closer : Char} (h : IsGroup (opener :: (inside ++ [closer])))
    (hOpener : opening? opener = some kind) :
    closing? closer = some kind ∧ WellNested inside ∧
      (kind = .angle → inside.getLast? ≠ some '=') := by
  obtain ⟨within, last, hSame, hClosed⟩ := h.exists_closer hOpener
  obtain ⟨rfl, hChar⟩ := List.append_inj' hSame rfl
  obtain ⟨rfl, -⟩ := List.cons.inj hChar
  exact hClosed

end IsGroup

/-! ### The search for the end of a group -/

/-- The group that is found is the one that the text begins with. -/
theorem group?_eq_some_iff (hOpener : opening? opener = some kind) :
    group? (opener :: rest) = .ok (some (inside, after)) ↔
      ∃ closer, rest = inside ++ closer :: after ∧ IsGroup (opener :: (inside ++ [closer])) := by
  constructor
  · intro h
    obtain ⟨closer, hRest, hCloser, hInside, hLast⟩ := group?_some hOpener h
    exact ⟨closer, hRest,
      .of_wellNested (balanced_iff_wellNested.mp hInside) hOpener hCloser hLast⟩
  · rintro ⟨closer, rfl, hGroup⟩
    obtain ⟨hCloser, hInside, hLast⟩ := hGroup.closed hOpener
    exact group?_eq_some (balanced_iff_wellNested.mpr hInside) hOpener hCloser hLast

/-- A search that begins with a bracket open does not end without one. -/
theorem groupFrom_ne_none {k : Cursor} (hOpen : k.shape.kinds ≠ []) :
    groupFrom k text ≠ .ok none := by
  induction text generalizing k with
  | nil =>
      intro h
      obtain ⟨_, hFinish, -⟩ := bind_ok h
      have hTop := Shape.atTop_iff.mp (k.shape_atTop.trans (Cursor.finish_ok_iff.mp hFinish))
      exact hOpen (congrArg kinds hTop)
  | cons c rest ih =>
      intro h
      obtain ⟨next, hStep, -⟩ := bind_ok h
      by_cases hNext : next.shape.kinds = []
      · rcases step_kinds_eq_nil (Cursor.step_ok hStep) hNext with hNil | ⟨_, hOne, -⟩
        · exact hOpen hNil
        · rw [groupFrom_cons_of_closes hStep hOne hNext] at h
          cases h
      · rw [groupFrom_cons_of_ne_nil hStep hNext] at h
        obtain ⟨found, hFound, hMap⟩ := map_ok h
        rw [Option.map_eq_none_iff.mp hMap] at hFound
        exact ih hNext hFound

/-- A search that starts at an opening bracket finds the end or a fault. It
does not end without either. -/
theorem group?_ne_none (hOpener : opening? opener = some kind) :
    group? (opener :: rest) ≠ .ok none := by
  obtain ⟨k, hStep, hShape⟩ := Cursor.step_of_shape
    (show Cursor.start.shape.step opener = _ from step_opening [] false hOpener)
  have hOpen : k.shape.kinds ≠ [] := by
    rw [hShape]
    exact List.cons_ne_nil kind []
  rw [group?, hStep, ok_bind]
  exact groupFrom_ne_none hOpen

/-- Where no group begins, the search meets a fault. -/
theorem group?_error_iff (hOpener : opening? opener = some kind) :
    (∃ fault, group? (opener :: rest) = .error fault) ↔
      ∀ group, group <+: opener :: rest → ¬IsGroup group := by
  constructor
  · rintro ⟨fault, hFault⟩ group ⟨after, hText⟩ hGroup
    obtain ⟨first, _, more, rfl, -⟩ := hGroup.opens
    rw [List.cons_append] at hText
    obtain ⟨rfl, rfl⟩ := List.cons.inj hText
    obtain ⟨inside, closer, rfl, -⟩ := hGroup.exists_closer hOpener
    have hRest : inside ++ [closer] ++ after = inside ++ closer :: after := by simp
    have hFound := (group?_eq_some_iff hOpener).mpr ⟨closer, hRest, hGroup⟩
    rw [hFault] at hFound
    cases hFound
  · intro hNone
    cases hFound : group? (opener :: rest) with
    | error fault => exact ⟨fault, rfl⟩
    | ok found =>
        cases found with
        | none => exact absurd hFound (group?_ne_none hOpener)
        | some cut =>
            obtain ⟨closer, rfl, hGroup⟩ := (group?_eq_some_iff hOpener).mp hFound
            exact absurd hGroup (hNone _ ⟨cut.2, by simp⟩)

/-! ### Offsets -/

/-- The offset of the partner is that of the opener, one byte for it, and
the bytes inside. -/
theorem partner?_append (front rest : List Char) (opener : Char) :
    partner? (front ++ opener :: rest) (byteCount front) =
      (group? (opener :: rest)).map
        (·.map fun (inside, _) => byteCount front + 1 + byteCount inside) := by
  have hSlice : slice (byteCount front) (byteCount (front ++ opener :: rest))
      (front ++ opener :: rest) = opener :: rest := by
    simpa using slice_append front (opener :: rest) []
  rw [partner?, hSlice]
  cases group? (opener :: rest) <;> rfl

/-- The same for offsets: the answer that there is none is given only where
no bracket opens. -/
theorem partner?_ne_none {front : List Char} (hOpener : opening? opener = some kind) :
    partner? (front ++ opener :: rest) (byteCount front) ≠ .ok none := by
  intro h
  rw [partner?_append] at h
  obtain ⟨found, hFound, hMap⟩ := map_ok h
  rw [Option.map_eq_none_iff.mp hMap] at hFound
  exact group?_ne_none hOpener hFound

/-- A fault is reported exactly if no group begins at the bracket. So a
bracket without a partner is never passed over in silence. -/
theorem partner?_error_iff {front : List Char} (hOpener : opening? opener = some kind) :
    (∃ fault, partner? (front ++ opener :: rest) (byteCount front) = .error fault) ↔
      ∀ group, group <+: opener :: rest → ¬IsGroup group := by
  rw [partner?_append, ← group?_error_iff hOpener]
  cases group? (opener :: rest) <;> simp [Except.map]

/-- Brackets take one byte each, so that the offsets behind them are
known. -/
theorem utf8Size_of_opening (h : opening? opener = some kind) : opener.utf8Size = 1 := by
  unfold opening? at h
  split at h <;> first | rfl | cases h

/-- The partner that is found is the last character of a group. -/
theorem partner?_some_iff {front : List Char} {j : Nat} (hOpener : opening? opener = some kind) :
    partner? (front ++ opener :: rest) (byteCount front) = .ok (some j) ↔
      ∃ inside closer after, rest = inside ++ closer :: after ∧
        IsGroup (opener :: (inside ++ [closer])) ∧ j = byteCount (front ++ opener :: inside) := by
  have hOffset (inside : List Char) :
      byteCount (front ++ opener :: inside) = byteCount front + 1 + byteCount inside := by
    rw [byteCount_append, byteCount_cons, utf8Size_of_opening hOpener, Nat.add_assoc]
  simp only [partner?_append, hOffset]
  constructor
  · intro h
    obtain ⟨found, hFound, hMap⟩ := map_ok h
    obtain ⟨⟨inside, after⟩, rfl, rfl⟩ := Option.map_eq_some_iff.mp hMap
    obtain ⟨closer, hRest, hGroup⟩ := (group?_eq_some_iff hOpener).mp hFound
    exact ⟨inside, closer, after, hRest, hGroup, rfl⟩
  · rintro ⟨inside, closer, after, hRest, hGroup, rfl⟩
    rw [(group?_eq_some_iff hOpener).mpr ⟨closer, hRest, hGroup⟩]
    rfl

/-- The same for a group that is not known to begin with this bracket. Its
text alone shows that it does. -/
theorem partner?_some_iff_isGroup {front : List Char} {j : Nat}
    (hOpener : opening? opener = some kind) :
    partner? (front ++ opener :: rest) (byteCount front) = .ok (some j) ↔
      ∃ body closer, body ++ [closer] <+: opener :: rest ∧ IsGroup (body ++ [closer]) ∧
        j = byteCount front + byteCount body := by
  rw [partner?_some_iff hOpener]
  constructor
  · rintro ⟨inside, closer, after, rfl, hGroup, rfl⟩
    exact ⟨opener :: inside, closer, ⟨after, by simp⟩, hGroup, byteCount_append _ _⟩
  · rintro ⟨body, closer, ⟨after, hText⟩, hGroup, rfl⟩
    rw [List.append_assoc, List.singleton_append] at hText
    cases body with
    | nil =>
        -- a single bracket is no group
        obtain ⟨rfl, -⟩ := List.cons.inj hText
        obtain ⟨inside, last, hEmpty, -⟩ := hGroup.exists_closer hOpener
        simp at hEmpty
    | cons first inside =>
        obtain ⟨rfl, rfl⟩ := List.cons.inj hText
        exact ⟨inside, closer, after, rfl, hGroup, (byteCount_append _ _).symm⟩

/-- The partner is a bracket of the same kind, and what is between the two
nests. -/
theorem exists_closer_of_partner? {front : List Char} {j : Nat}
    (hOpener : opening? opener = some kind)
    (h : partner? (front ++ opener :: rest) (byteCount front) = .ok (some j)) :
    ∃ inside closer after, rest = inside ++ closer :: after ∧
      j = byteCount (front ++ opener :: inside) ∧
      slice (byteCount front + 1) j (front ++ opener :: rest) = inside ∧
      closing? closer = some kind ∧ WellNested inside := by
  obtain ⟨inside, closer, after, rfl, hGroup, rfl⟩ := (partner?_some_iff hOpener).mp h
  obtain ⟨hCloser, hNested, -⟩ := hGroup.closed hOpener
  have hSlice := slice_append (front ++ [opener]) inside (closer :: after)
  refine ⟨inside, closer, after, rfl, rfl, ?_, hCloser, hNested⟩
  simpa [utf8Size_of_opening hOpener, Nat.add_assoc] using hSlice

/-- At an opening bracket a partner is found exactly if a group begins
there. It is the end of that group, of which there is only one: a bracket of
the same kind, and what is between the two nests. Otherwise the search
fails. -/
theorem partner?_ok_iff_isGroup {front rest : List Char} {opener : Char} {kind : Bracket}
    (hOpener : opening? opener = some kind) :
    let text := front ++ opener :: rest
    let opened := byteCount front
    partner? text opened ≠ .ok none ∧
      (∀ j, partner? text opened = .ok (some j) ↔
        ∃ body closer, body ++ [closer] <+: opener :: rest ∧ IsGroup (body ++ [closer]) ∧
          j = opened + byteCount body) ∧
      (∀ first second, IsGroup first → IsGroup second → first <+: opener :: rest →
        second <+: opener :: rest → first = second) ∧
      (∀ j, partner? text opened = .ok (some j) →
        ∃ inside closer after, rest = inside ++ closer :: after ∧
          j = byteCount (front ++ opener :: inside) ∧ slice (opened + 1) j text = inside ∧
          closing? closer = some kind ∧ WellNested inside) ∧
      ((∃ fault, partner? text opened = .error fault) ↔
        ∀ group, group <+: opener :: rest → ¬IsGroup group) :=
  ⟨partner?_ne_none hOpener, fun _ => partner?_some_iff_isGroup hOpener,
    fun _ _ => IsGroup.unique, fun _ => exists_closer_of_partner? hOpener,
    partner?_error_iff hOpener⟩

/-- The arrow in the inner list closes nothing, and what stands behind the
outer one does not matter. -/
theorem partner?_of_generics :
    let text := "f<A extends Map<() => B>>(".toList
    partner? text 1 = .ok (some 24) ∧ slice 2 24 text = "A extends Map<() => B>".toList ∧
      WellNested (slice 2 24 text) ∧
      ∃ body closer, body ++ [closer] <+: text.tail ∧ IsGroup (body ++ [closer]) ∧
        24 = 1 + byteCount body := by
  intro text
  have hText := @partner?_ok_iff_isGroup ['f'] "A extends Map<() => B>>(".toList '<' .angle rfl
  have hFound : partner? text 1 = .ok (some 24) := by decide +kernel
  obtain ⟨inside, closer, after, -, -, hSlice, -, hNested⟩ := hText.2.2.2.1 24 hFound
  refine ⟨hFound, by decide +kernel, ?_, (hText.2.1 24).mp hFound⟩
  exact hSlice ▸ hNested

end ScriptBindings.Bracket
