/-! Lists without repetitions: the first of equal elements is kept, and an
entry is found by its key when no other entry has the key. -/
namespace ScriptBindings

variable {α : Type}

section EraseDups

variable [DecidableEq α] {xs : List α}

/-- What is left of a list without its repetitions has none. -/
theorem nodup_eraseDups (xs : List α) : xs.eraseDups.Nodup := by
  induction hLength : xs.length using Nat.strongRecOn generalizing xs with
  | ind n ih =>
      cases xs with
      | nil => simp
      | cons x rest =>
          rw [List.eraseDups_cons, List.nodup_cons]
          refine ⟨by simp, ih _ ?_ _ rfl⟩
          rw [← hLength, List.length_cons]
          exact Nat.lt_succ_of_le (List.length_filter_le _ _)

theorem eraseDups_of_nodup (h : xs.Nodup) : xs.eraseDups = xs := by
  induction xs with
  | nil => rfl
  | cons x rest ih =>
      obtain ⟨hHead, hRest⟩ := List.nodup_cons.mp h
      have hKept : (rest.filter fun other => !other == x) = rest := by
        refine List.filter_eq_self.mpr fun other hOther => ?_
        simpa using fun hSame : other = x => hHead (hSame ▸ hOther)
      rw [List.eraseDups_cons, hKept, ih hRest]

/-- One more item is kept if it did not occur before. This is how names are
collected in the order of their first use. -/
theorem eraseDups_concat (xs : List α) (x : α) :
    (xs ++ [x]).eraseDups = if x ∈ xs then xs.eraseDups else xs.eraseDups ++ [x] := by
  rw [List.eraseDups_append, List.removeAll, List.filter_cons, List.filter_nil]
  by_cases hTaken : x ∈ xs
  · simp [hTaken]
  · simp [hTaken, List.eraseDups_cons]

end EraseDups

/-- With keys that differ, looking a key up is finding its entry anywhere in
the list. -/
theorem lookup_eq_some_iff_mem {entries : List (String × α)} {key : String} {value : α}
    (hKeys : (entries.map (·.1)).Nodup) :
    entries.lookup key = some value ↔ (key, value) ∈ entries := by
  induction entries with
  | nil => simp
  | cons entry rest ih =>
      obtain ⟨first, content⟩ := entry
      rw [List.map_cons, List.nodup_cons] at hKeys
      by_cases hSame : key = first
      · subst hSame
        have hOther : (key, value) ∉ rest := fun hMem =>
          hKeys.1 (List.mem_map.mpr ⟨(key, value), hMem, rfl⟩)
        simp [hOther, eq_comm]
      · have hDiffers : (key == first) = false := beq_false_of_ne hSame
        simp [List.lookup_cons, hDiffers, hSame, ih hKeys.2]

end ScriptBindings
