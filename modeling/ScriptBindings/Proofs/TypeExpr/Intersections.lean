import ScriptBindings.Proofs.Bracket.Faults
import ScriptBindings.Proofs.TypeExpr.Members

/-! Intersections. No form cuts a text at a `&`, so that an intersection is
an opaque type unless another form takes hold of it. Parentheses and
applications never do, because the `&` is outside all brackets. A modifier
in front and squares behind do: they are applied to the whole intersection,
although they belong to the operand next to them. -/
namespace ScriptBindings.TypeExpr

open Text Outcomes ScriptBindings.Bracket

/-- A text that nests, with a `&` outside all brackets and neither a bar nor
an arrow there. -/
structure Intersection (text : List Char) : Prop where
  nested : WellNested text
  joined : ¬Lacks ['&'] text
  noBar : Lacks ['|'] text
  noArrow : Lacks arrow text

/-- The operators that are written before a type, with a blank behind
them. -/
def modifiers : List String :=
  ["readonly", "keyof"]

/-- The text begins with a modifier or ends with squares. -/
def Operated (text : List Char) : Prop :=
  (∃ word ∈ modifiers, word.toList <+: text ∧
    (text.drop word.toList.length).head?.any isBlank = true) ∨ "[]".toList <:+ text

instance : DecidablePred Operated := fun _ =>
  inferInstanceAs (Decidable (_ ∨ _))

variable {text front back rest name argument : List Char} {word : String}

/-! ### Operators -/

/-- A keyword is recognised by a blank behind it. The tests of the parser
are put in terms of the text here. -/
theorem exists_afterWord?_iff :
    (∃ rest, afterWord? word text = some rest) ↔
      word.toList <+: text ∧ (text.drop word.toList.length).head?.any isBlank = true := by
  constructor
  · rintro ⟨rest, h⟩
    obtain ⟨c, tail, rfl, hBlank, -⟩ := afterWord?_eq_some_iff.mp h
    exact ⟨List.prefix_append _ _, by simpa using hBlank⟩
  · rintro ⟨⟨behind, rfl⟩, hBlank⟩
    rw [List.drop_left, Option.any_eq_true] at hBlank
    obtain ⟨c, hHead, hBlank⟩ := hBlank
    obtain ⟨tail, rfl⟩ := List.head?_eq_some_iff.mp hHead
    exact ⟨trimStart tail, afterWord?_eq_some_iff.mpr ⟨c, tail, rfl, hBlank, rfl⟩⟩

/-- The operators that a member may have at its ends: the two in front, and
the suffix of arrays behind. -/
theorem operated_iff :
    Operated text ↔ (∃ rest, afterWord? "readonly" text = some rest) ∨
      (∃ rest, afterWord? "keyof" text = some rest) ∨ "[]".toList <:+ text := by
  simp only [Operated, modifiers, exists_afterWord?_iff, List.mem_cons, List.not_mem_nil, or_false,
    exists_eq_or_imp, exists_eq_left, or_assoc]

/-- A modifier is a word that is lost with it. -/
theorem length_normalise_afterWord?_lt (hWord : isName word.toList = true)
    (h : afterWord? word text = some rest) :
    (normalise rest).length < (normalise text).length := by
  obtain ⟨c, tail, rfl, hBlank, rfl⟩ := afterWord?_eq_some_iff.mp h
  obtain ⟨blanks, hTail, hBlanks⟩ := exists_trimStart tail
  have hRest : words tail = words (trimStart tail) := by
    conv_lhs => rw [hTail, words_append_of_blank hBlanks]
  have hFirst : words word.toList = [word.toList] := by
    rw [words, List.splitOnP_eq_singleton fun c hc =>
      isBlank_of_isNameChar (isNameChar_of_isName hWord hc)]
    simp [ne_nil_of_isName hWord]
  have hPositive := List.length_pos_iff.mpr (ne_nil_of_isName hWord)
  rw [normalise, normalise, words_append_blank hBlank, hFirst, hRest, List.singleton_append]
  cases words (trimStart tail) with
  | nil => simpa using hPositive
  | cons next later =>
      rw [List.intercalate_cons_cons, List.length_append, List.length_append]
      omega

/-! ### Ampersands -/

/-- An ampersand outside of brackets stays one if plain text without
ampersands is taken off the front. -/
theorem joined_of_plain_append (h : ¬Lacks ['&'] (front ++ text))
    (hFront : ∀ c ∈ front, isPlain c = true) (hMem : '&' ∉ front) : ¬Lacks ['&'] text :=
  fun hText => h (hText.plain_append hFront rfl hMem)

/-- And if anything without ampersands is taken off the end. -/
theorem joined_of_append (h : ¬Lacks ['&'] (text ++ back)) (hMem : '&' ∉ back) :
    ¬Lacks ['&'] text :=
  fun hText => h (hText.append_of_not_mem (List.cons_ne_nil _ _) (by simpa using hMem))

theorem ampersand_not_mem_of_blank (h : ∀ c ∈ text, isBlank c = true) : '&' ∉ text := by
  intro hMem
  have hBlank := h '&' hMem
  simp [isBlank] at hBlank

theorem joined_trim (h : ¬Lacks ['&'] text) : ¬Lacks ['&'] (trim text) := by
  obtain ⟨front, back, hText, hFront, hBack⟩ := exists_trim text
  rw [hText] at h
  have hInner := joined_of_plain_append h (fun c hc => isPlain_of_isBlank (hFront c hc))
    (ampersand_not_mem_of_blank hFront)
  exact joined_of_append hInner (ampersand_not_mem_of_blank hBack)

theorem ampersand_not_mem_of_dotted (h : ((trimEnd front).splitOn '.').all isName = true) :
    '&' ∉ front := by
  obtain ⟨back, hFront, hBack⟩ := exists_trimEnd front
  rw [hFront, List.mem_append, not_or]
  refine ⟨fun hMem => ?_, ampersand_not_mem_of_blank hBack⟩
  obtain ⟨piece, hPiece, hChar⟩ := exists_mem_splitOn hMem (by decide : '&' ≠ '.')
  exact not_mem_of_isName (List.all_eq_true.mp h piece hPiece) rfl hChar

/-- A union member with a `&` outside all brackets. -/
structure JoinedText (text : List Char) : Prop where
  member : MemberText text
  joined : ¬Lacks ['&'] text

namespace JoinedText

/-- An intersection is a text that is joined by ampersands outside of all
brackets, and no function. -/
theorem of_intersection (h : Intersection text) : JoinedText (trim text) where
  member := by
    refine .of_trim (balanced_iff_wellNested.mpr h.nested) h.noBar h.noArrow fun hNil => ?_
    exact h.joined (.of_not_mem List.mem_cons_self
      (ampersand_not_mem_of_blank (isBlank_of_trim_eq_nil hNil)))
  joined := joined_trim h.joined

theorem mem (h : JoinedText text) : '&' ∈ text := by
  by_contra hMem
  exact h.joined (.of_not_mem List.mem_cons_self hMem)

/-- No joined text is a name, so that none is read as a keyword or a type
parameter. -/
theorem isName_eq_false (h : JoinedText text) : isName text = false := by
  rw [Bool.eq_false_iff]
  exact fun hName => not_mem_of_isName hName rfl h.mem

/-- Behind an operator the text is still joined. This is where the operator
is taken to bind all of the intersection. -/
theorem of_afterWord? (h : JoinedText text) (hWord : isName word.toList = true)
    (hAfter : afterWord? word text = some rest) : JoinedText (trim rest) where
  member := h.member.of_afterWord? hWord hAfter
  joined := by
    obtain ⟨c, tail, rfl, hBlank, rfl⟩ := afterWord?_eq_some_iff.mp hAfter
    obtain ⟨front, hTail, hFront⟩ := exists_trimStart tail
    have hBlanks : ∀ d ∈ c :: front, isBlank d = true := List.forall_mem_cons.mpr ⟨hBlank, hFront⟩
    have hBehind := joined_of_plain_append h.joined (isPlain_of_isName hWord)
      (not_mem_of_isName hWord rfl)
    rw [hTail, ← List.cons_append] at hBehind
    have hRest := joined_of_plain_append hBehind (fun d hd => isPlain_of_isBlank (hBlanks d hd))
      (ampersand_not_mem_of_blank hBlanks)
    exact joined_trim hRest

theorem of_element? (h : JoinedText text) (hElement : element? text = some rest) :
    JoinedText (trim rest) := by
  obtain ⟨rfl, hNil⟩ := element?_eq_some_iff.mp hElement
  exact ⟨h.member.of_squares hNil, joined_trim (joined_of_append h.joined (by decide))⟩

/-- In parentheses no `&` is outside. -/
theorem grouped?_ne_some (h : JoinedText text) : grouped? text ≠ .ok (some rest) := by
  intro hGrouped
  obtain ⟨rfl, hInside⟩ := grouped?_eq_some_iff.mp hGrouped
  exact h.joined (.group hInside rfl (by decide) (List.cons_ne_nil _ _))

/-- A `&` stands neither in a dotted name nor, outside, in its arguments. -/
theorem application?_ne_some (h : JoinedText text) :
    application? text ≠ .ok (some (name, argument)) := by
  intro hApplied
  obtain ⟨front, rfl, -, rfl, hName, hArgument, -⟩ := application?_eq_some_iff.mp hApplied
  have hGroup : Lacks ['&'] ('<' :: (argument ++ ['>'])) :=
    .group hArgument rfl (by decide) (List.cons_ne_nil _ _)
  exact h.joined (hGroup.plain_append (isPlain_of_dotted hName) rfl
    (ampersand_not_mem_of_dotted hName))

/-- Squares behind an intersection have an element before them. -/
theorem not_suffix_squares (h : JoinedText text) (hElement : element? text = none) :
    ¬"[]".toList <:+ text := by
  rintro ⟨element, rfl⟩
  have hBlank : trim element = [] := by
    by_contra hNil
    have hFound : element? (element ++ "[]".toList) = some element :=
      element?_eq_some_iff.mpr ⟨rfl, hNil⟩
    rw [hElement] at hFound
    cases hFound
  have hMem := h.mem
  rw [List.mem_append] at hMem
  rcases hMem with hMem | hMem
  · exact ampersand_not_mem_of_blank (isBlank_of_trim_eq_nil hBlank) hMem
  · exact absurd hMem (by decide)

/-- Every joined text has a form, so that reading it does not fail. -/
theorem exists_form (h : JoinedText text) : ∃ form, Form.of text = .ok form := by
  obtain ⟨group, hGroup⟩ := exists_grouped? h.member.balanced
  obtain ⟨application, hApplied⟩ := exists_application? h.member.balanced
  exact Form.exists_of hGroup hApplied

end JoinedText

/-! ### Reading -/

/-- What an intersection is read as: a type that is opaque, with all words
of the text, exactly when no operator stands at either end. A reference has
no other words than the text. -/
structure ReadsJoined (text : List Char) (t : TypeExpr) : Prop where
  plain_iff : t = opaqueType text ↔ ¬Operated text
  length_le : ∀ name, t = .reference name → name.toList.length ≤ (normalise text).length

namespace ReadsJoined

variable {t : TypeExpr}

/-- Without operators at its ends a joined text is read as a reference with
its whole text. -/
theorem of_plain (h : ¬Operated text) : ReadsJoined text (opaqueType text) where
  plain_iff := iff_of_true rfl h
  length_le := by
    rintro _ ⟨⟩
    rw [String.toList_ofList]

/-- Whatever is no reference is not opaque. -/
theorem of_operated (h : Operated text) (hOther : ∀ name, t ≠ .reference name) :
    ReadsJoined text t where
  plain_iff := iff_of_false (hOther _) (not_not.mpr h)
  length_le := fun name hName => absurd hName (hOther name)

/-- Without the first of its words a text is not read as all of them. -/
theorem of_afterWord? (h : ReadsJoined (trim rest) t) (hOperated : Operated text)
    (hWord : isName word.toList = true) (hAfter : afterWord? word text = some rest) :
    ReadsJoined text t := by
  have hShorter := length_normalise_afterWord?_lt hWord hAfter
  have hBound (name : String) (hName : t = .reference name) :
      name.toList.length < (normalise text).length := by
    have hWords := h.length_le name hName
    rw [normalise_trim] at hWords
    omega
  refine ⟨iff_of_false (fun hOpaque => ?_) (not_not.mpr hOperated),
    fun name hName => Nat.le_of_lt (hBound name hName)⟩
  have hSame := hBound _ hOpaque
  rw [String.toList_ofList] at hSame
  exact Nat.lt_irrefl _ hSame

end ReadsJoined

/-- The operators are taken off one by one, down to an intersection that has
none. -/
theorem JoinedText.exists_parseMember (generics : List String) (h : JoinedText text) :
    ∃ t, parseMember generics text = .ok t ∧ ReadsJoined text t := by
  induction hLength : text.length using Nat.strongRecOn generalizing text with
  | ind n ih =>
      obtain ⟨form, hForm⟩ := h.exists_form
      have hPart (part : List Char) (hPart : part ∈ form.parts) (hJoined : JoinedText (trim part)) :
          ∃ t, parseMember generics part = .ok t ∧ ReadsJoined (trim part) t := by
        have hShorter := Form.length_lt hForm hPart
        have hTrim := length_trim_le part
        rw [← parseMember_trim]
        exact ih (trim part).length (by omega) hJoined rfl
      rw [parseMember_of_form h.member.trimmed hForm]
      cases Form.of_eq_ok_iff.mp hForm with
      | grouped found => exact absurd found h.grouped?_ne_some
      | @readonlyOf rest _ found =>
          obtain ⟨t, hReads, hRest⟩ := hPart rest List.mem_cons_self (h.of_afterWord? rfl found)
          exact ⟨t, hReads, hRest.of_afterWord? (operated_iff.mpr (.inl ⟨rest, found⟩)) rfl found⟩
      | @keyOf target _ _ found =>
          obtain ⟨t, hReads, -⟩ := hPart target List.mem_cons_self (h.of_afterWord? rfl found)
          refine ⟨.keyOf t, by rw [readForm, hReads]; rfl, .of_operated ?_ (by simp)⟩
          exact operated_iff.mpr (.inr (.inl ⟨target, found⟩))
      | @array element _ _ _ found =>
          obtain ⟨t, hReads, -⟩ := hPart element List.mem_cons_self (h.of_element? found)
          refine ⟨.arrayOf t, by rw [readForm, hReads]; rfl, .of_operated ?_ (by simp)⟩
          exact operated_iff.mpr (.inr (.inr ⟨element, (element?_eq_some_iff.mp found).1.symm⟩))
      | applied _ _ _ _ found => exact absurd found h.application?_ne_some
      | plain _ notReadonly notKeyOf notArray _ =>
          refine ⟨opaqueType text, ?_, .of_plain ?_⟩
          · rw [readForm, ofPlain, h.isName_eq_false, if_neg Bool.false_ne_true]
          · simp only [operated_iff, notReadonly, notKeyOf, reduceCtorEq, exists_false, false_or]
            exact h.not_suffix_squares notArray

/-- An intersection is read as one opaque type, whatever its operands are,
exactly when it neither begins with a modifier nor ends with squares. -/
theorem parse_intersection (generics : List String) (h : Intersection text) :
    ∃ t, parse generics text = .ok t ∧
      (t = .reference (String.ofList (normalise text)) ↔ ¬Operated (trim text)) := by
  have hText := JoinedText.of_intersection h
  obtain ⟨t, hReads, hJoined⟩ := hText.exists_parseMember generics
  have hOpaque := hJoined.plain_iff
  rw [opaqueType, normalise_trim] at hOpaque
  rw [← parse_trim, hText.member.parse_eq]
  exact ⟨t, hReads, hOpaque⟩

/-- Operators of the operands inside the text, and brackets of every
kind. -/
theorem parse_intersection_of_operands :
    let text := " T[] & keyof Map<A | B, (c) => D>\n  & \x7b e: readonly 'f & [g'[] \x7d ".toList
    Intersection text ∧ ¬Operated (trim text) ∧ parse ["T"] text =
      .ok (.reference "T[] & keyof Map<A | B, (c) => D> & \x7b e: readonly 'f & [g'[] \x7d") := by
  intro text
  have hText : Intersection text :=
    ⟨balanced_iff_wellNested.mp (by decide +kernel), by decide +kernel, by decide +kernel,
      by decide +kernel⟩
  have hOperated : ¬Operated (trim text) := by decide +kernel
  obtain ⟨t, hParse, hOpaque⟩ := parse_intersection ["T"] hText
  rw [hOpaque.mpr hOperated] at hParse
  exact ⟨hText, hOperated, hParse.trans (by decide +kernel)⟩

/-- The squares of the last operand make an array of the whole
intersection. -/
theorem not_forall_intersection_reference :
    ¬∀ generics text, Intersection text →
      parse generics text = .ok (.reference (String.ofList (normalise text))) := by
  intro h
  have hText : Intersection "A & B[]".toList :=
    ⟨balanced_iff_wellNested.mp (by decide +kernel), by decide +kernel, by decide +kernel,
      by decide +kernel⟩
  have hParse : parse [] "A & B[]".toList = .ok (.arrayOf (.reference "A & B")) := by
    decide +kernel
  rw [h [] _ hText] at hParse
  cases hParse

end ScriptBindings.TypeExpr
