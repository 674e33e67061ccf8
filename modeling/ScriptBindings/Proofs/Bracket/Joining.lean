import ScriptBindings.Proofs.Bracket.Outside

/-! Texts joined by a separator between blanks. The joined text is cut at
the separators into exactly the texts that were joined. -/
namespace ScriptBindings.Bracket

open Text

variable {separator : Char} {joint text : List Char} {pieces : List (List Char)}

/-- A text that can be joined to others: it is one piece, begins and ends
with characters that are not blank, and holds no `=`. -/
structure Joinable (separator : Char) (text : List Char) : Prop where
  whole : Whole separator text
  trimmed : Trimmed text
  ne_nil : text ≠ []
  noArrow : '=' ∉ text

/-- A separator with blanks before and after it, or on one side only. -/
def Spaced (separator : Char) (joint : List Char) : Prop :=
  ∃ before after, joint = before ++ separator :: after ∧ (∀ c ∈ before, isBlank c = true) ∧
    ∀ c ∈ after, isBlank c = true

/-- A character of a joined text comes from the joint or from one of the
pieces. -/
theorem mem_intercalate {c : Char} (h : c ∈ joint.intercalate pieces) :
    c ∈ joint ∨ ∃ piece ∈ pieces, c ∈ piece := by
  induction pieces with
  | nil => cases h
  | cons piece rest ih =>
      cases rest with
      | nil =>
          rw [List.intercalate_singleton] at h
          exact Or.inr ⟨piece, List.mem_cons_self, h⟩
      | cons next later =>
          rw [List.intercalate_cons_cons, List.mem_append, List.mem_append] at h
          rcases h with (hPiece | hJoint) | hRest
          · exact Or.inr ⟨piece, List.mem_cons_self, hPiece⟩
          · exact Or.inl hJoint
          · rcases ih hRest with hJoint | ⟨other, hOther, hMem⟩
            · exact Or.inl hJoint
            · exact Or.inr ⟨other, List.mem_cons_of_mem _ hOther, hMem⟩

/-- Lists may be joined separately and then put together with one joint
between. -/
theorem intercalate_append {first second : List (List Char)} (hFirst : first ≠ [])
    (hSecond : second ≠ []) :
    joint.intercalate (first ++ second) =
      joint.intercalate first ++ (joint ++ joint.intercalate second) := by
  induction first with
  | nil => exact absurd rfl hFirst
  | cons text rest ih =>
      cases rest with
      | nil =>
          obtain ⟨next, later, rfl⟩ := List.exists_cons_of_ne_nil hSecond
          rw [List.singleton_append, List.intercalate_cons_cons, List.intercalate_singleton,
            List.append_assoc]
      | cons next later =>
          rw [List.cons_append, List.cons_append, List.intercalate_cons_cons,
            List.intercalate_cons_cons, ← List.cons_append, ih (List.cons_ne_nil next later)]
          simp

/-- Joining joined texts is joining all of them. -/
theorem intercalate_flatMap {α : Type} {pieces : α → List (List Char)}
    {xs : List α} (h : ∀ x ∈ xs, pieces x ≠ []) :
    joint.intercalate (xs.flatMap pieces) =
      joint.intercalate (xs.map fun x => joint.intercalate (pieces x)) := by
  induction xs with
  | nil => rfl
  | cons x rest ih =>
      obtain ⟨hHead, hTail⟩ := List.forall_mem_cons.mp h
      cases rest with
      | nil => simp
      | cons y later =>
          have hRest : (y :: later).flatMap pieces ≠ [] := by
            rw [List.flatMap_cons]
            exact List.append_ne_nil_of_left_ne_nil (hTail y List.mem_cons_self) _
          rw [List.flatMap_cons, intercalate_append hHead hRest, ih hTail, List.map_cons,
            List.map_cons, List.map_cons, List.intercalate_cons_cons, List.append_assoc]

/-- A joined text is trimmed if its pieces are, because its ends are those
of the first and the last piece. -/
theorem Trimmed.intercalate (h : ∀ piece ∈ pieces, Trimmed piece ∧ piece ≠ [])
    (hNil : pieces ≠ []) :
    Trimmed (joint.intercalate pieces) ∧ joint.intercalate pieces ≠ [] := by
  induction pieces with
  | nil => exact absurd rfl hNil
  | cons piece rest ih =>
      simp only [List.forall_mem_cons] at h
      cases rest with
      | nil =>
          rw [List.intercalate_singleton]
          exact h.1
      | cons next later =>
          obtain ⟨hTrimmed, hRest⟩ := ih h.2 (List.cons_ne_nil next later)
          rw [List.intercalate_cons_cons, List.append_assoc]
          exact ⟨h.1.1.append_middle hTrimmed h.1.2 hRest,
            List.append_ne_nil_of_left_ne_nil h.1.2 _⟩

section Plain

variable (hJoint : ∀ c ∈ joint, isPlain c = true) (hNil : joint ≠ [])

include hJoint hNil

/-- A plain joint keeps a text from what follows it. -/
theorem Balanced.append_joint (h : Balanced text) :
    Balanced (text ++ joint) ∧ (text ++ joint).getLast? ≠ some '=' := by
  rw [List.getLast?_append_of_ne_nil _ hNil]
  exact ⟨(append_plain_iff hJoint).mpr h, getLast?_plain hJoint⟩

/-- Balanced pieces joined by a separator are balanced, since the separator
keeps an equals sign from meeting what follows. -/
theorem Balanced.intercalate (h : ∀ piece ∈ pieces, Balanced piece) :
    Balanced (joint.intercalate pieces) := by
  induction pieces with
  | nil => exact .nil
  | cons piece rest ih =>
      obtain ⟨hPiece, hRest⟩ := List.forall_mem_cons.mp h
      cases rest with
      | nil =>
          rw [List.intercalate_singleton]
          exact hPiece
      | cons next later =>
          obtain ⟨hFront, hLast⟩ := hPiece.append_joint hJoint hNil
          rw [List.intercalate_cons_cons]
          exact hFront.append (ih hRest) hLast

/-- Joined texts have an arrow outside exactly when one of them has. -/
theorem lacks_arrow_intercalate_iff (h : ∀ piece ∈ pieces, Balanced piece) :
    Lacks arrow (joint.intercalate pieces) ↔ ∀ piece ∈ pieces, Lacks arrow piece := by
  induction pieces with
  | nil => exact ⟨by simp, fun _ => .of_not_mem (c := '=') List.mem_cons_self (by simp)⟩
  | cons piece rest ih =>
      obtain ⟨hPiece, hRest⟩ := List.forall_mem_cons.mp h
      cases rest with
      | nil =>
          rw [List.intercalate_singleton]
          simp
      | cons next later =>
          obtain ⟨hFront, hLast⟩ := hPiece.append_joint hJoint hNil
          rw [List.intercalate_cons_cons, List.forall_mem_cons, ← ih hRest]
          constructor
          · intro hLacks
            exact ⟨hLacks.of_append.of_append, hLacks.of_balanced_append hFront hLast⟩
          · rintro ⟨hHead, hTail⟩
            refine Lacks.append (hHead.append_of_not_mem (by simp [arrow]) ?_) hTail hFront hLast
            intro c hc hMem
            have hNotPlain : ∀ c ∈ arrow, isPlain c = false := by
              simp [arrow, isPlain, opening?, closing?, isQuote]
            have hPlain := hJoint c hMem
            rw [hNotPlain c hc] at hPlain
            cases hPlain

end Plain

theorem whole_of_blank {blanks : List Char} (hSeparator : isBlank separator = false)
    (h : ∀ c ∈ blanks, isBlank c = true) : Whole separator blanks := by
  refine .of_not_mem (.of_plain fun c hc => isPlain_of_isBlank (h c hc)) fun hMem => ?_
  rw [h separator hMem] at hSeparator
  cases hSeparator

/-- A text of blanks does not end in an equals sign and may stand before any
other. -/
theorem last_ne_of_blank {blanks : List Char} (h : ∀ c ∈ blanks, isBlank c = true) :
    blanks.getLast? ≠ some '=' := by
  intro hLast
  have hArrow := h '=' (List.mem_of_getLast? hLast)
  cases hArrow

/-- Blanks behind a text do not cut it. -/
theorem Whole.append_blanks {blanks : List Char} (h : Whole separator text)
    (hSeparator : isBlank separator = false) (hBlanks : ∀ c ∈ blanks, isBlank c = true) :
    Whole separator (text ++ blanks) := by
  rw [whole_iff] at h ⊢
  refine ⟨(Balanced.append_plain_iff fun c hc => isPlain_of_isBlank (hBlanks c hc)).mpr h.1,
    h.2.append_of_not_mem (List.cons_ne_nil _ _) ?_⟩
  rintro c hc hMem
  rw [List.mem_singleton.mp hc] at hMem
  rw [hBlanks separator hMem] at hSeparator
  cases hSeparator

/-- Joined texts are found again by cutting and trimming, also behind
blanks. -/
theorem exists_splitTop_spaced {lead : List Char} (hPlain : isPlain separator = true)
    (hSeparator : isBlank separator = false) (hJoint : Spaced separator joint)
    (hLead : ∀ c ∈ lead, isBlank c = true)
    (hPieces : ∀ piece ∈ text :: pieces, Whole separator piece ∧ Trimmed piece ∧ piece ≠ []) :
    ∃ cut, splitTop separator (lead ++ joint.intercalate (text :: pieces)) = .ok cut ∧
      cut.map trim = text :: pieces := by
  induction pieces generalizing lead text with
  | nil =>
      obtain ⟨hText, hTrimmed, hNil⟩ := hPieces text List.mem_cons_self
      have hWhole := (whole_of_blank hSeparator hLead).append hText (last_ne_of_blank hLead)
      refine ⟨[lead ++ text], ?_, ?_⟩
      · rw [List.intercalate_singleton, hWhole.splitTop_eq]
      · have hTrim : trim (lead ++ (text ++ [])) = text :=
          hTrimmed.trim_between hNil hLead (by simp)
        rw [List.append_nil] at hTrim
        rw [List.map_singleton, hTrim]
  | cons next later ih =>
      obtain ⟨before, after, rfl, hBefore, hAfter⟩ := hJoint
      obtain ⟨⟨hText, hTrimmed, hNil⟩, hRest⟩ := List.forall_mem_cons.mp hPieces
      obtain ⟨cut, hCut, hMap⟩ := ih hAfter hRest
      have hWhole : Whole separator (lead ++ (text ++ before)) := by
        refine (whole_of_blank hSeparator hLead).append ?_ (last_ne_of_blank hLead)
        exact hText.append_blanks hSeparator hBefore
      have hAll := hWhole.splitTop_append hPlain hCut
      refine ⟨(lead ++ (text ++ before)) :: cut, ?_, ?_⟩
      · rw [List.intercalate_cons_cons, ← hAll]
        simp
      · rw [List.map_cons, hMap, hTrimmed.trim_between hNil hLead hBefore]

/-- The pieces that are kept of joined texts, of which there may be none. -/
theorem exists_splitTop_intercalate (hPlain : isPlain separator = true)
    (hSeparator : isBlank separator = false) (hJoint : Spaced separator joint)
    (hPieces : ∀ piece ∈ pieces, Joinable separator piece) :
    ∃ cut, splitTop separator (joint.intercalate pieces) = .ok cut ∧
      (cut.map trim).filter (!·.isEmpty) = pieces := by
  cases pieces with
  | nil => exact ⟨[[]], rfl, rfl⟩
  | cons text rest =>
      have hLead : ∀ c ∈ ([] : List Char), isBlank c = true := by simp
      obtain ⟨cut, hCut, hMap⟩ := exists_splitTop_spaced hPlain hSeparator hJoint hLead
        fun piece hPiece =>
          ⟨(hPieces piece hPiece).whole, (hPieces piece hPiece).trimmed, (hPieces piece hPiece).ne_nil⟩
      refine ⟨cut, hCut, ?_⟩
      rw [hMap]
      refine List.filter_eq_self.mpr fun piece hPiece => ?_
      simpa using (hPieces piece hPiece).ne_nil

end ScriptBindings.Bracket
