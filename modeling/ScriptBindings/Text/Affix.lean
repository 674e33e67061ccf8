/-! The text behind a leading key and the text before a final one. Each is
found exactly when the text is the concatenation. -/
namespace ScriptBindings.Text

/-- The text behind a leading `key`. -/
def after? : List Char → List Char → Option (List Char)
  | [], text => some text
  | _ :: _, [] => none
  | k :: key, c :: text => if k == c then after? key text else none

/-- The text before a final `key`. -/
def before? (key text : List Char) : Option (List Char) :=
  (after? key.reverse text.reverse).map List.reverse

theorem after?_eq_some_iff {key text rest : List Char} :
    after? key text = some rest ↔ text = key ++ rest := by
  induction key generalizing text with
  | nil => simp [after?]
  | cons k key ih =>
      cases text with
      | nil => simp [after?]
      | cons c text =>
          by_cases h : k = c
          · simp [after?, h, ih]
          · simp [after?, h, Ne.symm h]

theorem before?_eq_some_iff {key text rest : List Char} :
    before? key text = some rest ↔ text = rest ++ key := by
  simp only [before?, Option.map_eq_some_iff, after?_eq_some_iff]
  constructor
  · rintro ⟨reversed, h, rfl⟩
    simpa using congrArg List.reverse h
  · rintro rfl
    exact ⟨rest.reverse, by simp⟩

end ScriptBindings.Text
