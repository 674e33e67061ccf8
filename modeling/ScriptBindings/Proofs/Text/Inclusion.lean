import Mathlib.Data.List.Infix

/-! Texts within longer texts. A text is found only from where its first
character stands, and it ends only where its last one does. As a word it
also ends there. -/
namespace ScriptBindings.Text

variable {α : Type} {first text front rest : List α} {a b : α}

theorem concat_suffix_concat_iff : first ++ [b] <:+ text ++ [a] ↔ b = a ∧ first <:+ text := by
  rw [List.suffix_concat_iff]
  constructor
  · rintro (hNil | ⟨found, hSame, hSuffix⟩)
    · exact absurd hNil (by simp)
    · obtain ⟨rfl, hLast⟩ := List.append_inj' hSame rfl
      exact ⟨(List.cons.inj hLast).1, hSuffix⟩
  · rintro ⟨rfl, hSuffix⟩
    exact Or.inr ⟨first, rfl, hSuffix⟩

/-- A text stands in a longer one either at the very end or before the last
character. -/
theorem concat_infix_concat_iff :
    first ++ [b] <:+: text ++ [a] ↔ (b = a ∧ first <:+ text) ∨ first ++ [b] <:+: text := by
  rw [List.infix_concat_iff, concat_suffix_concat_iff]

/-- What stands before the first place where a text could begin does not
matter. -/
theorem cons_infix_append_iff (h : a ∉ front) :
    a :: rest <:+: front ++ text ↔ a :: rest <:+: text := by
  induction front with
  | nil => rfl
  | cons c front ih =>
      rw [List.mem_cons, not_or] at h
      rw [List.cons_append, List.infix_cons_iff, List.cons_prefix_cons, ih h.2]
      simp [h.1]

/-- A suffix begins where its first character does, and not in a text
without it. -/
theorem cons_suffix_append_iff (h : a ∉ front) :
    a :: rest <:+ front ++ text ↔ a :: rest <:+ text := by
  induction front with
  | nil => rfl
  | cons c front ih =>
      rw [List.mem_cons, not_or] at h
      rw [List.cons_append, List.suffix_cons_iff, ih h.2]
      simp [h.1]

/-- A suffix without a character ends before this character does. -/
theorem suffix_append_cons_iff (h : a ∉ first) : first <:+ front ++ a :: text ↔ first <:+ text := by
  constructor
  · rintro ⟨before, hSame⟩
    rcases List.append_eq_append_iff.mp hSame with ⟨middle, -, hFirst⟩ | ⟨middle, -, hText⟩
    · exact absurd (hFirst ▸ by simp) h
    · cases middle with
      | nil =>
          rw [List.nil_append] at hText
          exact absurd (hText ▸ List.mem_cons_self) h
      | cons c rest =>
          rw [(List.cons.inj hText).2]
          exact List.suffix_append rest first
  · intro hSuffix
    exact hSuffix.trans ((List.suffix_cons a text).trans (List.suffix_append front _))

/-- A text does not begin with a character that its front is without. -/
theorem not_cons_prefix_append (hFront : front ≠ []) (h : a ∉ front) :
    ¬a :: rest <+: front ++ text := by
  cases front with
  | nil => exact absurd rfl hFront
  | cons c front =>
      rw [List.cons_append, List.cons_prefix_cons]
      exact fun hPrefix => h (hPrefix.1 ▸ List.mem_cons_self)

/-! ### Words -/

/-- The part stands in the text as a whole: no character of a word touches
it. Without any characters of words it is a part like any other. -/
def StandsIn (isWord : α → Bool) (part text : List α) : Prop :=
  ∃ front back, text = front ++ part ++ back ∧ (∀ a ∈ front.getLast?, isWord a = false) ∧
    ∀ a ∈ back.head?, isWord a = false

variable {isWord : α → Bool} {part : List α}

/-- Where the part begins tells what stands in front of it and behind it. -/
theorem standsIn_iff : StandsIn isWord part text ↔ ∃ i < text.length + 1,
    part <+: text.drop i ∧ (∀ a ∈ (text.take i).getLast?, isWord a = false) ∧
      ∀ a ∈ (text.drop (i + part.length)).head?, isWord a = false := by
  constructor
  · rintro ⟨front, back, rfl, hFront, hBack⟩
    refine ⟨front.length, by simp only [List.length_append]; omega, ?_⟩
    rw [← List.drop_drop, List.append_assoc, List.drop_left, List.take_left, List.drop_left]
    exact ⟨List.prefix_append _ _, hFront, hBack⟩
  · rintro ⟨i, -, ⟨rest, hRest⟩, hFront, hBack⟩
    refine ⟨text.take i, text.drop (i + part.length), ?_, hFront, hBack⟩
    rw [← List.drop_drop, ← hRest, List.drop_left, List.append_assoc, hRest, List.take_append_drop]

instance [DecidableEq α] : Decidable (StandsIn isWord part text) :=
  decidable_of_iff _ standsIn_iff.symm

theorem standsIn_refl (part : List α) : StandsIn isWord part part :=
  ⟨[], [], by simp, by simp, by simp⟩

/-- A word that stands in a text occurs in it. The converse fails where it
is a part of a longer word. -/
theorem StandsIn.isInfix (h : StandsIn isWord part text) : part <:+: text := by
  obtain ⟨front, back, rfl, -, -⟩ := h
  exact ⟨front, back, rfl⟩

/-- Marks around a text leave whole what stands in it as a whole. -/
theorem StandsIn.between (h : StandsIn isWord part text)
    (hFront : ∀ a ∈ front.getLast?, isWord a = false)
    (hRest : ∀ a ∈ rest.head?, isWord a = false) :
    StandsIn isWord part (front ++ text ++ rest) := by
  obtain ⟨before, behind, rfl, hBefore, hBehind⟩ := h
  refine ⟨front ++ before, behind ++ rest, by simp, fun a ha => ?_, fun a ha => ?_⟩
  · rw [List.getLast?_append, Option.mem_def, Option.or_eq_some_iff] at ha
    exact ha.elim (hBefore a) fun hLast => hFront a hLast.2
  · rw [List.head?_append, Option.mem_def, Option.or_eq_some_iff] at ha
    exact ha.elim (hBehind a) fun hHead => hRest a hHead.2

end ScriptBindings.Text
