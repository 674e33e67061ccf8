import Mathlib.Logic.Function.Basic
import ScriptBindings.Proofs.Text.Inclusion
import ScriptBindings.Proofs.Text.Replacing
import ScriptBindings.Text.Xml

/-! Entities. Each of the three replacements leaves alone what the ones
before it have written, so that a text is escaped character by character.
Replacing all entities in one pass gives the text back. -/
namespace ScriptBindings.Text

variable {text rest entity : List Char} {c : Char}

/-- The characters that are escaped and the entities that stand for them. -/
def entities : List (Char × List Char) :=
  [('&', "&amp;".toList), ('<', "&lt;".toList), ('>', "&gt;".toList)]

def escapeXmlChar (c : Char) : List Char :=
  (entities.lookup c).getD [c]

/-- The text with the characters that its entities stand for. Each entity is
read as it stands there, and what it stands for is not read again. -/
def unescapeXml : List Char → List Char
  | '&' :: 'a' :: 'm' :: 'p' :: ';' :: rest => '&' :: unescapeXml rest
  | '&' :: 'l' :: 't' :: ';' :: rest => '<' :: unescapeXml rest
  | '&' :: 'g' :: 't' :: ';' :: rest => '>' :: unescapeXml rest
  | c :: rest => c :: unescapeXml rest
  | [] => []

/-! ### Single characters -/

/-- A character is written as its entity or, if it has none, as itself.
There are three that have one. -/
theorem escapeXmlChar_cases (c : Char) :
    (c, escapeXmlChar c) ∈ entities ∨
      (c ≠ '&' ∧ c ≠ '<' ∧ c ≠ '>' ∧ escapeXmlChar c = [c]) := by
  cases hLookup : entities.lookup c with
  | some entity =>
      obtain ⟨front, behind, hEntities, -⟩ := List.lookup_eq_some_iff.mp hLookup
      refine Or.inl ?_
      rw [escapeXmlChar, hLookup, hEntities]
      simp
  | none =>
      have hNone := List.lookup_eq_none_iff.mp hLookup
      simp only [entities, List.forall_mem_cons, bne_iff_ne] at hNone
      obtain ⟨hAmpersand, hOpening, hClosing, -⟩ := hNone
      exact Or.inr ⟨hAmpersand, hOpening, hClosing, by rw [escapeXmlChar, hLookup]; rfl⟩

/-- The later replacements find nothing in the entities that the earlier
ones have written. -/
theorem toList_escapeXml (text : String) :
    (escapeXml text).toList = text.toList.flatMap escapeXmlChar := by
  have hEntities : ∀ entity ∈ entities,
      ((if entity.1 = '&' then "&amp;".toList else [entity.1]).flatMap fun d =>
        (if d = '<' then "&lt;".toList else [d]).flatMap fun e =>
          if e = '>' then "&gt;".toList else [e]) = entity.2 := by
    decide
  simp only [escapeXml, String.toList_ofList, replace_singleton, List.flatMap_assoc]
  congr 1
  funext c
  rcases escapeXmlChar_cases c with hEntity | ⟨hAmpersand, hOpening, hClosing, hEscaped⟩
  · exact hEntities _ hEntity
  · simp [hAmpersand, hOpening, hClosing, hEscaped]

/-- No angle bracket is left by the escape of a character, be it one of them
or not. -/
theorem not_mem_escapeXmlChar (c : Char) : '<' ∉ escapeXmlChar c ∧ '>' ∉ escapeXmlChar c := by
  have hEntities : ∀ entity ∈ entities, '<' ∉ entity.2 ∧ '>' ∉ entity.2 := by decide
  rcases escapeXmlChar_cases c with hEntity | ⟨-, hOpening, hClosing, hEscaped⟩
  · exact hEntities _ hEntity
  · rw [hEscaped, List.mem_singleton, List.mem_singleton]
    exact ⟨Ne.symm hOpening, Ne.symm hClosing⟩

theorem unescapeXml_cons (h : c ≠ '&') (rest : List Char) :
    unescapeXml (c :: rest) = c :: unescapeXml rest := by
  rw [unescapeXml]
  all_goals simp [h]

/-- The escape of a character is read back as this character, whatever
follows. -/
theorem unescapeXml_escapeXmlChar_append (c : Char) (rest : List Char) :
    unescapeXml (escapeXmlChar c ++ rest) = c :: unescapeXml rest := by
  have hEntities : ∀ entity ∈ entities,
      unescapeXml (entity.2 ++ rest) = entity.1 :: unescapeXml rest := by
    simp [entities, unescapeXml]
  rcases escapeXmlChar_cases c with hEntity | ⟨hAmpersand, -, -, hEscaped⟩
  · exact hEntities _ hEntity
  · rw [hEscaped, List.singleton_append, unescapeXml_cons hAmpersand]

/-! ### Whole texts -/

/-- An entity has no ampersand behind its first character. -/
theorem suffix_entity_append (hEntity : (c, entity) ∈ entities)
    (h : '&' :: rest <:+ entity ++ text) : entity <+: '&' :: rest ∨ '&' :: rest <:+ text := by
  have hEntities : ∀ entity ∈ entities, entity.2.head? = some '&' ∧ '&' ∉ entity.2.tail := by
    decide
  obtain ⟨hHead, hTail⟩ := hEntities _ hEntity
  obtain ⟨name, rfl⟩ := List.head?_eq_some_iff.mp hHead
  rw [List.cons_append, List.suffix_cons_iff] at h
  rcases h with hSame | hSuffix
  · rw [hSame]
    exact Or.inl (List.prefix_append ('&' :: name) text)
  · exact Or.inr ((cons_suffix_append_iff hTail).mp hSuffix)

/-- Every ampersand of an escaped text begins an entity, for an ampersand of
the text itself was replaced by one. -/
theorem exists_entity_of_suffix (h : '&' :: rest <:+ text.flatMap escapeXmlChar) :
    ∃ c entity, (c, entity) ∈ entities ∧ entity <+: '&' :: rest := by
  induction text with
  | nil => simp at h
  | cons c text ih =>
      rw [List.flatMap_cons] at h
      rcases escapeXmlChar_cases c with hEntity | ⟨hAmpersand, -, -, hEscaped⟩
      · rcases suffix_entity_append hEntity h with hPrefix | hSuffix
        · exact ⟨c, escapeXmlChar c, hEntity, hPrefix⟩
        · exact ih hSuffix
      · have hNot : '&' ∉ [c] := by simpa using Ne.symm hAmpersand
        rw [hEscaped, cons_suffix_append_iff hNot] at h
        exact ih h

/-- A text that was escaped character by character is read back as a
whole. -/
theorem unescapeXml_flatMap (text : List Char) :
    unescapeXml (text.flatMap escapeXmlChar) = text := by
  induction text with
  | nil => rfl
  | cons c text ih => rw [List.flatMap_cons, unescapeXml_escapeXmlChar_append, ih]

/-- An escaped text has no markup: neither angle is in it, and each
ampersand begins an entity. Replacing the entities gives the text back, so
that no two texts are escaped alike. -/
theorem escapeXml_reversible :
    (∀ text : String,
      '<' ∉ (escapeXml text).toList ∧ '>' ∉ (escapeXml text).toList ∧
        (∀ front rest, (escapeXml text).toList = front ++ '&' :: rest →
          ∃ c entity, (c, entity) ∈ entities ∧ entity <+: '&' :: rest) ∧
        unescapeXml (escapeXml text).toList = text.toList) ∧
      Function.Injective escapeXml := by
  have hBack (text : String) : unescapeXml (escapeXml text).toList = text.toList := by
    rw [toList_escapeXml, unescapeXml_flatMap]
  refine ⟨fun text => ⟨?_, ?_, fun front rest hText => ?_, hBack text⟩, fun first second hSame => ?_⟩
  · rw [toList_escapeXml, List.mem_flatMap]
    rintro ⟨c, -, hMem⟩
    exact (not_mem_escapeXmlChar c).1 hMem
  · rw [toList_escapeXml, List.mem_flatMap]
    rintro ⟨c, -, hMem⟩
    exact (not_mem_escapeXmlChar c).2 hMem
  · rw [toList_escapeXml] at hText
    exact exists_entity_of_suffix ⟨front, hText.symm⟩
  · rw [← String.toList_inj, ← hBack first, hSame, hBack second]

/-- An entity that the text has already is kept apart from the angle it
stands for. -/
example : (escapeXml "&lt;").toList = "&amp;lt;".toList ∧
    unescapeXml "&amp;lt;".toList = "&lt;".toList := by
  decide +kernel

end ScriptBindings.Text
