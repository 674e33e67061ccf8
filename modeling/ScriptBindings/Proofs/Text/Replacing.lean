import ScriptBindings.Text.Replace

/-! Where a key is replaced in a text: only from where its first character
stands, and there if it stands there as a whole. A key of one character is
replaced character by character. -/
namespace ScriptBindings.Text

variable {key replacement front rest : List Char} {c : Char}

/-- A key is found only where its first character is. -/
theorem replace_append (hKey : key.head? = some c) (hFront : c ∉ front) :
    replace key replacement (front ++ rest) = front ++ replace key replacement rest := by
  obtain ⟨behind, rfl⟩ := List.head?_eq_some_iff.mp hKey
  induction front with
  | nil => rfl
  | cons d front ih =>
      rw [List.mem_cons, not_or] at hFront
      have hNot : (c :: behind).isPrefixOf (d :: (front ++ rest)) = false := by
        rw [List.isPrefixOf_cons_cons, beq_false_of_ne hFront.1, Bool.false_and]
      rw [List.cons_append, replace, replaceAfter, hNot, if_neg Bool.false_ne_true,
        List.cons_append]
      exact congrArg (d :: ·) (ih hFront.2)

theorem replaceAfter_append (front rest : List Char) :
    replaceAfter key replacement front.length (front ++ rest) =
      replaceAfter key replacement 0 rest := by
  induction front with
  | nil => rfl
  | cons d front ih =>
      rw [List.length_cons, List.cons_append, replaceAfter]
      exact ih

/-- A key is replaced where it stands. -/
theorem replace_key (hKey : key ≠ []) (rest : List Char) :
    replace key replacement (key ++ rest) = replacement ++ replace key replacement rest := by
  obtain ⟨c, behind, rfl⟩ := List.exists_cons_of_ne_nil hKey
  have hHere : (c :: behind).isPrefixOf (c :: (behind ++ rest)) = true :=
    List.isPrefixOf_iff_prefix.mpr (List.prefix_append (c :: behind) rest)
  rw [List.cons_append, replace, replaceAfter, if_pos hHere, List.length_cons, Nat.add_sub_cancel,
    replaceAfter_append]
  rfl

theorem replace_singleton (c : Char) (replacement text : List Char) :
    replace [c] replacement text = text.flatMap fun d => if d = c then replacement else [d] := by
  induction text with
  | nil => rfl
  | cons d rest ih =>
      rw [List.flatMap_cons, ← ih]
      split
      · next hSame =>
          subst hSame
          exact replace_key (List.cons_ne_nil d []) rest
      · next hDiffers =>
          have hFront : c ∉ [d] := fun hMem => hDiffers (List.mem_singleton.mp hMem).symm
          exact replace_append rfl hFront

end ScriptBindings.Text
