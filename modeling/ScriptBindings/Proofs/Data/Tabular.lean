import Mathlib.Data.List.Forall2
import ScriptBindings.Data.Basic

/-! The records that a table notation can hold, and what it may change about
them. A notation with headers writes the values of a table before its
tables, so that a record comes back with its fields in another order, at
every depth. -/
namespace ScriptBindings.Data

/-- Values that stand on a line: a flag, a text or a list of texts. -/
inductive Plain : Data → Prop
  | flag (value : Bool) : Plain (.flag value)
  | text (value : String) : Plain (.text value)
  | texts (values : List String) : Plain (.texts values)

/-- Fields with different keys that hold plain values, tables or rows of
tables, where tables nest at most so deep. -/
inductive Tabular : Nat → List (String × Data) → Prop
  | nil (depth : Nat) : Tabular depth []
  | plain {depth : Nat} {key : String} {value : Data} {rest : List (String × Data)}
      (hKey : key ∉ rest.map (·.1)) (hValue : Plain value) (hRest : Tabular depth rest) :
      Tabular depth ((key, value) :: rest)
  | table {depth : Nat} {key : String} {fields rest : List (String × Data)}
      (hKey : key ∉ rest.map (·.1)) (hFields : Tabular depth fields)
      (hRest : Tabular (depth + 1) rest) :
      Tabular (depth + 1) ((key, .record fields) :: rest)
  | rows {depth : Nat} {key : String} {first : List (String × Data)}
      {others : List (List (String × Data))} {rest : List (String × Data)}
      (hKey : key ∉ rest.map (·.1)) (hTables : ∀ fields ∈ first :: others, Tabular depth fields)
      (hRest : Tabular (depth + 1) rest) :
      Tabular (depth + 1) ((key, .list ((first :: others).map .record)) :: rest)

/-- Data that differ in the order of fields only. -/
inductive Rearranged : Data → Data → Prop
  | refl (d : Data) : Rearranged d d
  | list {items others : List Data} (h : List.Forall₂ Rearranged items others) :
      Rearranged (.list items) (.list others)
  | record {fields middle others : List (String × Data)} (hPerm : fields.Perm middle)
      (hKeys : middle.map (·.1) = others.map (·.1))
      (hValues : List.Forall₂ Rearranged (middle.map (·.2)) (others.map (·.2))) :
      Rearranged (.record fields) (.record others)

/-- The same key, with data that differ in the order of fields only. -/
def RearrangedField (a b : String × Data) : Prop :=
  a.1 = b.1 ∧ Rearranged a.2 b.2

variable {fields middle others : List (String × Data)} {d : Data}

/-- Fields are rearranged pairwise: the keys stay, and the values may be put
in another order inside. -/
theorem rearrangedFields_iff :
    List.Forall₂ RearrangedField middle others ↔
      middle.map (·.1) = others.map (·.1) ∧
        List.Forall₂ Rearranged (middle.map (·.2)) (others.map (·.2)) := by
  constructor
  · intro h
    induction h with
    | nil => exact ⟨rfl, .nil⟩
    | cons hField _ ih => exact ⟨by simp [hField.1, ih.1], .cons hField.2 ih.2⟩
  · rintro ⟨hKeys, hValues⟩
    induction middle generalizing others with
    | nil =>
        cases others with
        | nil => exact .nil
        | cons b others => cases hKeys
    | cons a middle ih =>
        cases others with
        | nil => cases hKeys
        | cons b others =>
            rw [List.map_cons, List.map_cons, List.cons.injEq] at hKeys
            rw [List.map_cons, List.map_cons, List.forall₂_cons] at hValues
            exact .cons ⟨hKeys.1, hValues.1⟩ (ih hKeys.2 hValues.2)

/-- Fields may first be put in another order and then be rearranged one by
one. -/
theorem Rearranged.of_fields (hPerm : fields.Perm middle)
    (h : List.Forall₂ RearrangedField middle others) :
    Rearranged (.record fields) (.record others) := by
  obtain ⟨hKeys, hValues⟩ := rearrangedFields_iff.mp h
  exact .record hPerm hKeys hValues

/-- A text has no fields and so is only a rearrangement of itself. -/
theorem rearranged_text {value : String} (h : Rearranged (.text value) d) : d = .text value := by
  cases h
  rfl

theorem rearranged_flag {value : Bool} (h : Rearranged (.flag value) d) : d = .flag value := by
  cases h
  rfl

/-- The items of a list keep their order. Each may be rearranged inside. -/
theorem rearranged_list {items : List Data} (h : Rearranged (.list items) d) :
    ∃ others, d = .list others ∧ List.Forall₂ Rearranged items others := by
  cases h with
  | refl => exact ⟨items, rfl, List.forall₂_same.mpr fun item _ => .refl item⟩
  | list h => exact ⟨_, rfl, h⟩

/-- A rearrangement of a record has its fields in some order, each
rearranged inside. -/
theorem rearranged_record (h : Rearranged (.record fields) d) :
    ∃ middle others, d = .record others ∧ fields.Perm middle ∧
      List.Forall₂ RearrangedField middle others := by
  cases h with
  | refl => exact ⟨fields, fields, rfl, .refl _, List.forall₂_same.mpr fun a _ => ⟨rfl, .refl _⟩⟩
  | record hPerm hKeys hValues =>
      exact ⟨_, _, rfl, hPerm, rearrangedFields_iff.mpr ⟨hKeys, hValues⟩⟩

end ScriptBindings.Data
