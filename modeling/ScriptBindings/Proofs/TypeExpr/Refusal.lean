import ScriptBindings.Proofs.Bracket.Faults
import ScriptBindings.Proofs.TypeExpr.Walks

/-! Which types are refused for their brackets. The whole text is walked
before any part of it is read, unless an arrow stands outside all brackets:
behind the first such arrow nothing is looked at, so that it need not be
balanced. -/
namespace ScriptBindings.TypeExpr

open Text Outcomes ScriptBindings.Bracket

variable {generics : List String} {text : List Char} {flaw : Flaw}

/-- The walks over the parts of a balanced text all succeed. -/
theorem parse_ne_unbalanced (h : Balanced (trim text)) :
    parse generics text ≠ .error (.unbalanced flaw) := by
  intro hRefused
  rw [← parse_trim] at hRefused
  have hReads : Reader.type.read generics (trim text) = .error (.unbalanced flaw) := hRefused
  obtain ⟨walk, hWalk, hFails⟩ := Reader.fails_of_unbalanced hReads
  exact hFails (hWalk.succeeds h)

/-- A type is refused for the flaw that the walk of its whole text meets, if
no arrow comes before it. -/
theorem parse_eq_unbalanced_iff :
    parse generics text = .error (.unbalanced flaw) ↔
      (∃ offset, check (trim text) = .error ⟨offset, flaw⟩) ∧ Lacks arrow (trim text) := by
  constructor
  · intro h
    cases hArrow : hasArrow (trim text) with
    | error fault =>
        obtain ⟨hCheck, hLacks⟩ := hasArrow_error_iff.mp hArrow
        rw [parse_of_arrow_error hArrow] at h
        cases h
        exact ⟨⟨fault.offset, hCheck⟩, hLacks⟩
    | ok found =>
        cases found with
        | true =>
            rw [parse_of_arrow hArrow] at h
            cases h
        | false => exact absurd h (parse_ne_unbalanced (hasArrow_eq_false_iff.mp hArrow).1)
  · rintro ⟨⟨offset, hCheck⟩, hLacks⟩
    exact parse_of_arrow_error (hasArrow_error_iff.mpr ⟨hCheck, hLacks⟩)

/-- Exactly the texts that do not nest are refused for their brackets, with
the flaw that cutting them reports, unless an arrow outside all brackets
comes before the fault: the type is then the text, whatever it is. -/
theorem refused_iff_not_wellNested (generics : List String) (text : List Char) (separator : Char) :
    ((∃ flaw, parse generics text = .error (.unbalanced flaw)) ↔
        ¬WellNested (trim text) ∧ Lacks arrow (trim text)) ∧
      (∀ flaw, parse generics text = .error (.unbalanced flaw) ↔
        (∃ offset, splitTop separator (trim text) = .error ⟨offset, flaw⟩) ∧
          Lacks arrow (trim text)) ∧
      (¬Lacks arrow (trim text) → parse generics text = .ok (opaqueType (trim text))) := by
  refine ⟨?_, fun flaw => by simp only [splitTop_error_iff, parse_eq_unbalanced_iff], fun h => ?_⟩
  · have hFault : (∃ flaw offset, check (trim text) = .error ⟨offset, flaw⟩) ↔
        ¬WellNested (trim text) :=
      ⟨fun ⟨flaw, offset, hCheck⟩ => exists_fault_iff.mp ⟨_, hCheck⟩, fun h => by
        obtain ⟨fault, hCheck⟩ := exists_fault_iff.mpr h
        exact ⟨fault.flaw, fault.offset, hCheck⟩⟩
    simp only [parse_eq_unbalanced_iff, exists_and_right, hFault]
  · simp only [Lacks, not_forall, not_not] at h
    obtain ⟨before, after, hText, hBefore⟩ := h
    exact parse_of_arrow (hasArrow_eq_true_iff.mpr ⟨before, after, hText, hBefore⟩)

/-- Without the arrow the same closing bracket is at fault. -/
theorem refused_closing :
    ¬WellNested (trim "(a) | b)".toList) ∧
      parse [] "(a) | b)".toList = .error (.unbalanced (.unexpected ')')) := by
  have hText := refused_iff_not_wellNested [] "(a) | b)".toList '|'
  have hRefused : parse [] "(a) | b)".toList = .error (.unbalanced (.unexpected ')')) := by
    refine (hText.2.1 _).mpr ⟨⟨7, by decide +kernel⟩, ?_⟩
    exact .of_not_mem List.mem_cons_self (by decide)
  exact ⟨(hText.1.mp ⟨_, hRefused⟩).1, hRefused⟩

/-- Behind an arrow a closing bracket that nothing opens is accepted. -/
theorem not_forall_unnested_refused :
    ¬∀ generics text, ¬WellNested (trim text) → ∃ fault, parse generics text = .error fault := by
  intro h
  have hText : parse [] "(a) => b)".toList = .ok (.reference "(a) => b)") := by decide +kernel
  obtain ⟨fault, hFault⟩ := h [] "(a) => b)".toList (by
    rw [← balanced_iff_wellNested]
    decide +kernel)
  rw [hText] at hFault
  cases hFault

end ScriptBindings.TypeExpr
