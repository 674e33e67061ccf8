/-! Entries kept in increasing order of their keys, so that every key occurs
once and equal contents are equal lists. Looking up what was put in gives it
back, and no other key is affected. -/
namespace ScriptBindings.SortedEntries

variable {α : Type}

/-- Every key is less than the keys behind it. -/
def Sorted (entries : List (String × α)) : Prop :=
  entries.Pairwise fun a b => a.1 < b.1

/-- Put an entry in its place, instead of an entry with the same key. -/
def insert (key : String) (value : α) : List (String × α) → List (String × α)
  | [] => [(key, value)]
  | entry :: rest =>
      if key < entry.1 then (key, value) :: entry :: rest
      else if entry.1 < key then entry :: insert key value rest
      else (key, value) :: rest

def erase (key : String) (entries : List (String × α)) : List (String × α) :=
  entries.filter (·.1 != key)

theorem mem_insert {key : String} {value : α} {entries : List (String × α)} {x : String × α}
    (h : x ∈ insert key value entries) : x = (key, value) ∨ x ∈ entries := by
  induction entries with
  | nil => simpa [insert] using h
  | cons entry rest ih =>
      simp only [insert] at h
      split at h
      · simpa using h
      · split at h
        · rcases List.mem_cons.1 h with rfl | h
          · simp
          · rcases ih h with rfl | h <;> simp_all
        · rcases List.mem_cons.1 h with rfl | h <;> simp_all

theorem sorted_insert (key : String) (value : α) {entries : List (String × α)}
    (h : Sorted entries) : Sorted (insert key value entries) := by
  induction entries with
  | nil => simp [insert, Sorted]
  | cons entry rest ih =>
      obtain ⟨above, tail⟩ := List.pairwise_cons.1 h
      simp only [insert]
      split
      · next lower =>
          refine List.pairwise_cons.2 ⟨fun x hx => ?_, h⟩
          rcases List.mem_cons.1 hx with rfl | hx
          · exact lower
          · exact String.lt_trans lower (above x hx)
      · next notLower =>
          split
          · next higher =>
              refine List.pairwise_cons.2 ⟨fun x hx => ?_, ih tail⟩
              rcases mem_insert hx with rfl | hx
              · exact higher
              · exact above x hx
          · next notHigher =>
              have same : entry.1 = key :=
                String.le_antisymm (String.not_lt.1 notLower) (String.not_lt.1 notHigher)
              exact List.pairwise_cons.2 ⟨fun x hx => same ▸ above x hx, tail⟩

theorem sorted_erase (key : String) {entries : List (String × α)} (h : Sorted entries) :
    Sorted (erase key entries) :=
  h.filter _

theorem mem_of_lookup {key : String} {value : α} {entries : List (String × α)}
    (h : entries.lookup key = some value) : (key, value) ∈ entries := by
  obtain ⟨before, after, rfl, -⟩ := List.lookup_eq_some_iff.1 h
  simp

@[simp] theorem lookup_insert_self (key : String) (value : α) (entries : List (String × α)) :
    (insert key value entries).lookup key = some value := by
  induction entries with
  | nil => simp [insert]
  | cons entry rest ih =>
      obtain ⟨first, content⟩ := entry
      simp only [insert]
      split
      · simp
      · split
        · next higher =>
            have different : (key == first) = false :=
              beq_false_of_ne fun same => String.lt_irrefl key (same ▸ higher)
            simpa [List.lookup_cons, different] using ih
        · simp

theorem lookup_insert_of_ne {key other : String} (value : α) (entries : List (String × α))
    (h : other ≠ key) : (insert key value entries).lookup other = entries.lookup other := by
  have different : (other == key) = false := beq_false_of_ne h
  induction entries with
  | nil => simp [insert, List.lookup_cons, different]
  | cons entry rest ih =>
      obtain ⟨first, content⟩ := entry
      simp only [insert]
      split
      · simp [List.lookup_cons, different]
      · split
        · simp [List.lookup_cons, ih]
        · next notLower notHigher =>
            have same : first = key :=
              String.le_antisymm (String.not_lt.1 notLower) (String.not_lt.1 notHigher)
            simp [List.lookup_cons, same, different]

end ScriptBindings.SortedEntries
