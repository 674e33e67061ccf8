import ScriptBindings.Proofs.TypeExpr.Layout

/-! Texts of union members. They have no bar and no arrow outside all
brackets. What a form leaves to the reader of members is such a text again,
and so is what is put together from such texts as canonical texts are. -/
namespace ScriptBindings.TypeExpr

open Text Outcomes ScriptBindings.Bracket

/-- A text that is read as one member of a union, and as no function
type. -/
structure MemberText (text : List Char) : Prop where
  whole : Whole '|' text
  noArrow : Lacks arrow text
  trimmed : Trimmed text
  ne_nil : text ≠ []

variable {generics : List String} {text rest inside argument name piece : List Char} {word : String}

theorem isName_keyword (p : Primitive) : isName p.keyword.toList = true := by
  cases p <;> decide

namespace MemberText

theorem balanced (h : MemberText text) : Balanced text :=
  h.whole.balanced

theorem hasArrow_eq (h : MemberText text) : hasArrow text = .ok false :=
  hasArrow_eq_false_iff.mpr ⟨h.balanced, h.noArrow⟩

theorem relaid (h : MemberText text) (hRelaid : Relaid text rest) : MemberText rest where
  whole := h.whole.relaid hRelaid (by simp [isBlank])
  noArrow := h.noArrow.relaid hRelaid (List.cons_ne_nil _ _) (by simp [arrow, isBlank])
  trimmed := hRelaid.trimmed h.trimmed
  ne_nil := hRelaid.ne_nil h.ne_nil

/-! ### Parts -/

/-- Between blanks there is the text of a member. -/
theorem of_trim (hText : Balanced text) (hBar : Lacks ['|'] text) (hArrow : Lacks arrow text)
    (hNil : trim text ≠ []) : MemberText (trim text) := by
  obtain ⟨front, hFront, hBlank⟩ := exists_trimStart text
  obtain ⟨back, hBack, -⟩ := exists_trimEnd (trimStart text)
  have hPlain : ∀ c ∈ front, isPlain c = true := fun c hc => isPlain_of_isBlank (hBlank c hc)
  have hInner {key : List Char} (h : Lacks key text) : Lacks key (trim text) := by
    rw [hFront] at h
    have hRest := h.of_plain_append hPlain
    rw [hBack] at hRest
    exact hRest.of_append
  exact ⟨whole_iff.mpr ⟨hText.trim, hInner hBar⟩, hInner hArrow, trimmed_trim text, hNil⟩

/-- The pieces of a text that is no function type are texts of members. -/
theorem of_mem_memberTexts {pieces : List (List Char)} (hArrow : hasArrow text = .ok false)
    (hPieces : memberTexts text = .ok pieces) (hPiece : piece ∈ pieces) : MemberText piece := by
  obtain ⟨cut, hCut, hAll⟩ := bind_ok hPieces
  cases hAll
  obtain ⟨hMem, hNil⟩ := List.mem_filter.mp hPiece
  obtain ⟨raw, hRaw, rfl⟩ := List.mem_map.mp hMem
  obtain ⟨-, rfl, hWhole⟩ := (splitTop_eq_ok_iff rfl).mp hCut
  obtain ⟨-, hLacks⟩ := hasArrow_eq_false_iff.mp hArrow
  rw [lacks_arrow_intercalate_iff (by simp; decide) (List.cons_ne_nil _ _)
    fun raw hRaw => (hWhole raw hRaw).balanced] at hLacks
  obtain ⟨hBalanced, hBar⟩ := whole_iff.mp (hWhole raw hRaw)
  exact of_trim hBalanced hBar (hLacks raw hRaw) (by simpa using hNil)

/-- What stands behind a keyword is a member again, so that the reader may
go on with it. -/
theorem of_afterWord? (h : MemberText text) (hWord : isName word.toList = true)
    (hAfter : afterWord? word text = some rest) : MemberText (trim rest) := by
  obtain ⟨c, tail, rfl, hBlank, rfl⟩ := afterWord?_eq_some_iff.mp hAfter
  obtain ⟨front, hFront, hFrontBlank⟩ := exists_trimStart tail
  have hPlain : ∀ d ∈ word.toList ++ c :: front, isPlain d = true := by
    simp only [List.forall_mem_append, List.forall_mem_cons]
    exact ⟨isPlain_of_isName hWord, isPlain_of_isBlank hBlank,
      fun d hd => isPlain_of_isBlank (hFrontBlank d hd)⟩
  have hSplit : word.toList ++ c :: tail = (word.toList ++ c :: front) ++ trimStart tail := by
    rw [List.append_assoc, List.cons_append, ← hFront]
  obtain ⟨hBalanced, hBar⟩ := whole_iff.mp h.whole
  have hArrow := h.noArrow
  rw [hSplit] at hBalanced hBar hArrow
  refine of_trim ((Balanced.plain_append_iff hPlain).mp hBalanced) (hBar.of_plain_append hPlain)
    (hArrow.of_plain_append hPlain) fun hNil => ?_
  -- If nothing but blanks stood behind the word, the text would end with a blank.
  have hTail : ∀ d ∈ c :: tail, isBlank d = true := by
    rw [hFront, List.forall_mem_cons, List.forall_mem_append]
    exact ⟨hBlank, hFrontBlank, isBlank_of_trim_eq_nil hNil⟩
  have hEnd := List.getLast?_eq_some_getLast (List.cons_ne_nil c tail)
  have hLast := h.trimmed.last _ (by rw [List.getLast?_append, hEnd]; rfl)
  rw [hTail _ (List.getLast_mem _)] at hLast
  cases hLast

theorem of_squares (h : MemberText (text ++ ['[', ']'])) (hNil : trim text ≠ []) :
    MemberText (trim text) :=
  of_trim h.balanced.of_append_squares (whole_iff.mp h.whole).2.of_append h.noArrow.of_append hNil

/-! ### Texts put together -/

theorem squares (h : MemberText text) : MemberText (text ++ ['[', ']']) := by
  obtain ⟨hBalanced, hBar⟩ := whole_iff.mp h.whole
  refine ⟨whole_iff.mpr ⟨hBalanced.append_squares, ?_⟩, ?_,
    h.trimmed.append trimmed_squares h.ne_nil (by simp),
    List.append_ne_nil_of_left_ne_nil h.ne_nil _⟩
  · exact hBar.append_of_not_mem (List.cons_ne_nil _ _) (by simp)
  · exact h.noArrow.append_of_not_mem (List.cons_ne_nil _ _) (by simp [arrow])

/-- Parentheses make a member of any balanced text, because nothing in them
is outside of all brackets. -/
theorem grouped (h : Balanced inside) : MemberText ('(' :: (inside ++ [')'])) where
  whole := .group h rfl rfl (by simp) (by decide) (by decide)
  noArrow := .group h rfl (by decide) (List.cons_ne_nil _ _)
  trimmed := trimmed_of_ends rfl rfl
  ne_nil := List.cons_ne_nil _ _

/-- A text stays one member behind characters that mean nothing to a
walk. -/
theorem plain_append {front : List Char} (h : MemberText text)
    (hFront : ∀ c ∈ front, isPlain c = true) (hBar : '|' ∉ front) (hArrow : '=' ∉ front)
    (hTrimmed : Trimmed (front ++ text)) : MemberText (front ++ text) where
  whole := .append (.of_not_mem (.of_plain hFront) hBar) h.whole fun hLast =>
    hArrow (List.mem_of_getLast? hLast)
  noArrow := h.noArrow.plain_append hFront rfl hArrow
  trimmed := hTrimmed
  ne_nil := List.append_ne_nil_of_right_ne_nil _ h.ne_nil

theorem angles (h : Balanced argument) (hLast : argument.getLast? ≠ some '=') :
    MemberText ('<' :: (argument ++ ['>'])) where
  whole := .group h rfl rfl (fun _ => hLast) (by decide) (by decide)
  noArrow := .group h rfl (by decide) (List.cons_ne_nil _ _)
  trimmed := trimmed_of_ends rfl rfl
  ne_nil := List.cons_ne_nil _ _

theorem applied (hName : isName name = true) (h : Balanced argument)
    (hLast : argument.getLast? ≠ some '=') : MemberText (name ++ '<' :: (argument ++ ['>'])) :=
  (angles h hLast).plain_append (isPlain_of_isName hName) (not_mem_of_isName hName (by decide))
    (not_mem_of_isName hName (by decide)) (trimmed_applied hName)

theorem modified (h : MemberText text) (hWord : isName word.toList = true) :
    MemberText (word.toList ++ ' ' :: text) := by
  have hSplit : word.toList ++ ' ' :: text = (word.toList ++ [' ']) ++ text := by simp
  have hMem {c : Char} (hName : isNameChar c = false) (hSpace : c ≠ ' ') :
      c ∉ word.toList ++ [' '] := by
    simpa [hSpace] using not_mem_of_isName hWord hName
  have hTrimmed := trimmed_modified hWord h.trimmed h.ne_nil
  rw [hSplit] at hTrimmed ⊢
  refine h.plain_append ?_ (hMem rfl (by decide)) (hMem rfl (by decide)) hTrimmed
  exact List.forall_mem_append.mpr ⟨isPlain_of_isName hWord, List.all_eq_true.mp rfl⟩

theorem keyOf (h : MemberText text) : MemberText ("keyof ".toList ++ text) :=
  h.modified (show isName "keyof".toList = true from rfl)

theorem of_name (h : isName text = true) : MemberText text where
  whole := .of_not_mem (.of_plain (isPlain_of_isName h)) (not_mem_of_isName h (by decide))
  noArrow := .of_not_mem List.mem_cons_self (not_mem_of_isName h (by decide))
  trimmed := trimmed_of_isName h
  ne_nil := ne_nil_of_isName h

/-! ### Reading -/

/-- A member is cut into nothing but itself, for it has no bar outside of
its brackets. -/
theorem memberTexts_eq (h : MemberText text) : memberTexts text = .ok [text] := by
  rw [memberTexts, h.whole.splitTop_eq]
  simp [h.trimmed.trim_eq, h.ne_nil]

/-- A text that is one member reads as that member. -/
theorem parse_eq (h : MemberText text) : parse generics text = parseMember generics text := by
  rw [parse_of_members h.trimmed h.ne_nil h.hasArrow_eq h.memberTexts_eq, List.mapM_cons,
    List.mapM_nil]
  cases parseMember generics text <;> rfl

end MemberText

section Joined

variable {pieces : List (List Char)} (h : ∀ piece ∈ pieces, MemberText piece) (hNil : pieces ≠ [])

include h

theorem balanced_joined : Balanced (" | ".toList.intercalate pieces) :=
  .intercalate (List.all_eq_true.mp rfl) (by decide) fun piece hPiece => (h piece hPiece).balanced

/-- Members joined by bars have no arrow outside of their brackets. The
blanks about the bars keep an arrow from coming about. -/
theorem hasArrow_joined : hasArrow (" | ".toList.intercalate pieces) = .ok false := by
  refine hasArrow_eq_false_iff.mpr ⟨balanced_joined h, ?_⟩
  rw [lacks_arrow_intercalate_iff (List.all_eq_true.mp rfl) (by decide)
    fun piece hPiece => (h piece hPiece).balanced]
  exact fun piece hPiece => (h piece hPiece).noArrow

include hNil

theorem trimmed_joined :
    Trimmed (" | ".toList.intercalate pieces) ∧ " | ".toList.intercalate pieces ≠ [] :=
  Trimmed.intercalate (fun piece hPiece => ⟨(h piece hPiece).trimmed, (h piece hPiece).ne_nil⟩) hNil

/-- Members joined by bars are found again. -/
theorem memberTexts_joined : memberTexts (" | ".toList.intercalate pieces) = .ok pieces := by
  obtain ⟨text, rest, rfl⟩ := List.exists_cons_of_ne_nil hNil
  have hJoint : Spaced '|' " | ".toList :=
    ⟨[' '], [' '], rfl, List.all_eq_true.mp rfl, List.all_eq_true.mp rfl⟩
  have hLead : ∀ c ∈ ([] : List Char), isBlank c = true := by simp
  obtain ⟨cut, hCut, hMap⟩ := exists_splitTop_spaced rfl rfl hJoint hLead fun piece hPiece =>
    ⟨(h piece hPiece).whole, (h piece hPiece).trimmed, (h piece hPiece).ne_nil⟩
  have hKept : (text :: rest).filter (!·.isEmpty) = text :: rest :=
    List.filter_eq_self.mpr fun piece hPiece => by simpa using (h piece hPiece).ne_nil
  rw [List.nil_append] at hCut
  rw [memberTexts, hCut]
  simp [hMap, hKept]

/-- Members joined by bars read as their union. -/
theorem parse_joined :
    parse generics (" | ".toList.intercalate pieces) =
      pieces.mapM (parseMember generics) >>= ofMembers := by
  obtain ⟨hTrimmed, hText⟩ := trimmed_joined h hNil
  exact parse_of_members hTrimmed hText (hasArrow_joined h) (memberTexts_joined h hNil)

end Joined

end ScriptBindings.TypeExpr
