import Mathlib.Data.List.Forall2

/-! Computations that stop at their first fault. A result of a sequence is
taken apart one step at a time, and a fault of it is a fault of one of its
steps. -/
namespace ScriptBindings.Outcomes

variable {ε φ α β : Type}

@[simp] theorem ok_bind (a : α) (next : α → Except ε β) :
    (Except.ok a >>= next) = next a := rfl

@[simp] theorem error_bind (fault : ε) (next : α → Except ε β) :
    (Except.error fault >>= next) = .error fault := rfl

@[simp] theorem pure_eq_ok (a : α) : (pure a : Except ε α) = .ok a := rfl

@[simp] theorem throw_eq_error (fault : ε) :
    (throw fault : Except ε α) = .error fault := rfl

/-- A sequence that succeeds had a first result, and went on from it. With
this a function in steps is taken apart without unfolding it. -/
theorem bind_ok {first : Except ε α} {next : α → Except ε β} {result : β}
    (h : first >>= next = .ok result) : ∃ a, first = .ok a ∧ next a = .ok result := by
  cases first with
  | error fault => simp at h
  | ok a => exact ⟨a, rfl, h⟩

/-- A sequence fails in its first step, or the first step succeeds and the
rest fails on its result. -/
theorem bind_error {first : Except ε α} {next : α → Except ε β} {fault : ε}
    (h : first >>= next = .error fault) :
    first = .error fault ∨ ∃ a, first = .ok a ∧ next a = .error fault := by
  cases first with
  | error other => exact Or.inl (by simpa using h)
  | ok a => exact Or.inr ⟨a, rfl, h⟩

/-- A result that was changed afterwards comes from one before. -/
theorem map_ok {first : Except ε α} {f : α → β} {result : β}
    (h : first.map f = .ok result) : ∃ a, first = .ok a ∧ f a = result := by
  cases first with
  | error fault => simp [Except.map] at h
  | ok a => exact ⟨a, rfl, by simpa [Except.map] using h⟩

theorem map_error {first : Except ε α} {f : α → β} {fault : ε}
    (h : first.map f = .error fault) : first = .error fault := by
  cases first with
  | error other => simpa [Except.map] using h
  | ok a => simp [Except.map] at h

/-- Changing the fault afterwards does not touch a result, so that a success
can be traced to the step it came from. -/
theorem mapError_ok {first : Except ε α} {f : ε → φ} {result : α}
    (h : first.mapError f = .ok result) : first = .ok result := by
  cases first with
  | error fault => simp [Except.mapError] at h
  | ok a => simpa [Except.mapError] using h

/-- A fault that was changed afterwards comes from one before. -/
theorem mapError_error {first : Except ε α} {f : ε → φ} {fault : φ}
    (h : first.mapError f = .error fault) : ∃ e, first = .error e ∧ f e = fault := by
  cases first with
  | error e => exact ⟨e, rfl, by simpa [Except.mapError] using h⟩
  | ok a => simp [Except.mapError] at h

/-- A list computed element by element has one result for each element, in
the same order. Inductions over such a list go along this relation. -/
theorem mapM_ok_iff {f : α → Except ε β} {xs : List α} {ys : List β} :
    xs.mapM f = .ok ys ↔ List.Forall₂ (fun x y => f x = .ok y) xs ys := by
  induction xs generalizing ys with
  | nil => simp [eq_comm]
  | cons x xs ih =>
      rw [List.mapM_cons]
      constructor
      · intro h
        obtain ⟨y, hy, h⟩ := bind_ok h
        obtain ⟨rest, hRest, h⟩ := bind_ok h
        cases h
        exact List.Forall₂.cons hy (ih.mp hRest)
      · intro h
        cases h with
        | cons hy hRest => simp [hy, ih.mpr hRest]

/-- A fault of the list is the fault of one of its elements. The elements
behind it are not reached. -/
theorem mapM_error {f : α → Except ε β} {xs : List α} {fault : ε}
    (h : xs.mapM f = .error fault) : ∃ x ∈ xs, f x = .error fault := by
  induction xs with
  | nil => simp at h
  | cons x xs ih =>
      rw [List.mapM_cons] at h
      rcases bind_error h with hx | ⟨y, -, h⟩
      · exact ⟨x, List.mem_cons_self, hx⟩
      · rcases bind_error h with hRest | ⟨rest, -, h⟩
        · obtain ⟨z, hz, hFault⟩ := ih hRest
          exact ⟨z, List.mem_cons_of_mem x hz, hFault⟩
        · simp at h

/-- Every result of a list is the result of one of its elements, which is
all that is needed where the order plays no part. -/
theorem mapM_ok_mem {f : α → Except ε β} {xs : List α} {ys : List β} {y : β}
    (h : xs.mapM f = .ok ys) (hMem : y ∈ ys) : ∃ x ∈ xs, f x = .ok y := by
  induction mapM_ok_iff.mp h with
  | nil => cases hMem
  | @cons x z xs ys hHead hTail ih =>
      rcases List.mem_cons.mp hMem with rfl | hRest
      · exact ⟨x, List.mem_cons_self, hHead⟩
      · obtain ⟨found, hFound, hResult⟩ := ih (mapM_ok_iff.mpr hTail) hRest
        exact ⟨found, List.mem_cons_of_mem x hFound, hResult⟩

end ScriptBindings.Outcomes
