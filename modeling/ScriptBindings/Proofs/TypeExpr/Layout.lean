import ScriptBindings.Proofs.Bracket.Layout
import ScriptBindings.Proofs.TypeExpr.Forms

/-! Types in another layout. No form is told by the number of its blanks, so
a text has the same form in every layout, and its parts differ in their
layout only. What is read depends on the words of the text alone. -/
namespace ScriptBindings.TypeExpr

open Text Outcomes ScriptBindings.Bracket

variable {generics : List String} {first second rest inside argument name text : List Char}
  {word : String} {t : TypeExpr}

/-! ### Forms -/

/-- The same form, its parts in another layout. -/
inductive Form.Relaid : Form → Form → Prop where
  | grouped {inside other : List Char} (hInside : Text.Relaid inside other) :
      Relaid (.grouped inside) (.grouped other)
  | readonlyOf {rest other : List Char} (hRest : Text.Relaid rest other) :
      Relaid (.readonlyOf rest) (.readonlyOf other)
  | keyOf {target other : List Char} (hTarget : Text.Relaid target other) :
      Relaid (.keyOf target) (.keyOf other)
  | array {element other : List Char} (hElement : Text.Relaid element other) :
      Relaid (.array element) (.array other)
  | applied {name argument other : List Char} (hArgument : Text.Relaid argument other) :
      Relaid (.applied name argument) (.applied name other)
  | plain : Relaid .plain .plain

/-- Parentheses around the whole are found in every layout of a text, with
layouts of the same inside. -/
theorem exists_grouped?_relaid (h : Text.Relaid first second)
    (hFound : grouped? first = .ok (some inside)) :
    ∃ other, grouped? second = .ok (some other) ∧ Text.Relaid inside other := by
  obtain ⟨rfl, hInside⟩ := grouped?_eq_some_iff.mp hFound
  obtain ⟨behind, rfl, hBehind⟩ := h.exists_cons (by decide)
  obtain ⟨other, last, rfl, hOther, hLast⟩ := hBehind.exists_split (by decide) rfl
  rw [hLast.eq_nil]
  exact ⟨other, grouped?_eq_some_iff.mpr ⟨rfl, hInside.relaid hOther⟩, hOther⟩

/-- So is a keyword in front, as layouts differ in the number of blanks only
and not in whether there are any. -/
theorem exists_afterWord?_relaid (h : Text.Relaid first second) (hWord : isName word.toList = true)
    (hFound : afterWord? word first = some rest) :
    ∃ other, afterWord? word second = some other ∧ Text.Relaid rest other := by
  obtain ⟨c, tail, rfl, hBlank, rfl⟩ := afterWord?_eq_some_iff.mp hFound
  obtain ⟨behind, rfl, hBehind⟩ := h.exists_append fun d hd =>
    isBlank_of_isNameChar (isNameChar_of_isName hWord hd)
  have hTrim := hBehind.trimStart
  obtain ⟨d, others, rfl⟩ := List.exists_cons_of_ne_nil (hBehind.ne_nil (List.cons_ne_nil c tail))
  have hOther : isBlank d = true := by
    by_contra hChar
    obtain ⟨back, hBack, -⟩ := hBehind.symm.exists_cons (Bool.eq_false_iff.mpr hChar)
    obtain ⟨rfl, -⟩ := List.cons.inj hBack
    exact hChar hBlank
  have hSkip {e : Char} (text : List Char) (he : isBlank e = true) :
      trimStart (e :: text) = trimStart text := by
    simp [trimStart, he]
  rw [hSkip tail hBlank, hSkip others hOther] at hTrim
  exact ⟨_, afterWord?_eq_some_iff.mpr ⟨d, others, rfl, hOther, rfl⟩, hTrim⟩

theorem exists_element?_relaid (h : Text.Relaid first second) (hFound : element? first = some rest) :
    ∃ other, element? second = some other ∧ Text.Relaid rest other := by
  obtain ⟨rfl, hNil⟩ := element?_eq_some_iff.mp hFound
  have hKey : ∀ c ∈ ['[', ']'], isBlank c = false := by simp [isBlank]
  rw [← List.append_nil ['[', ']']] at h
  obtain ⟨other, last, rfl, hOther, hLast⟩ := h.exists_split_append (List.cons_ne_nil _ _) hKey
  rw [hLast.eq_nil, List.append_nil]
  exact ⟨other, element?_eq_some_iff.mpr ⟨rfl, hOther.trim.ne_nil hNil⟩, hOther⟩

/-- There are no blanks in a dotted name. -/
theorem no_blank_of_dotted (h : (name.splitOn '.').all isName = true) :
    ∀ c ∈ name, isBlank c = false := by
  intro c hMem
  by_cases hDot : c = '.'
  · rw [hDot]
    decide
  · obtain ⟨piece, hPiece, hChar⟩ := exists_mem_splitOn hMem hDot
    exact isBlank_of_isNameChar (isNameChar_of_isName (List.all_eq_true.mp h piece hPiece) hChar)

/-- And so is an application, with the same name in every layout. -/
theorem exists_application?_relaid (h : Text.Relaid first second)
    (hFound : application? first = .ok (some (name, argument))) :
    ∃ other, application? second = .ok (some (name, other)) ∧ Text.Relaid argument other := by
  obtain ⟨front, rfl, hFront, rfl, hName, hArgument, hLast⟩ := application?_eq_some_iff.mp hFound
  obtain ⟨otherFront, behind, rfl, hOtherFront, hBehind⟩ := h.exists_split (by decide) rfl
  obtain ⟨other, last, rfl, hOther, hEnd⟩ := hBehind.exists_split (by decide) rfl
  rw [hEnd.eq_nil]
  have hSame : trimEnd otherFront = trimEnd front :=
    (hOtherFront.trimEnd.eq_of_no_blank (no_blank_of_dotted hName)).symm
  refine ⟨other, application?_eq_some_iff.mpr ⟨otherFront, rfl, ?_, hSame, hName,
    hArgument.relaid hOther, ?_⟩, hOther⟩
  · exact fun hMem => hFront ((hOtherFront.mem_iff (by decide)).mpr hMem)
  · exact fun hMem => hLast (hOther.symm.getLast?_eq_some (by decide) hMem)

/-- What is found in every layout of a text, or in none, is not found in
another layout of a text in which it is not found. -/
theorem none_of_relaid {α : Type} {find : List Char → Option α}
    (hFind : ∀ {first second found}, Text.Relaid first second → find first = some found →
      ∃ other, find second = some other)
    (h : Text.Relaid first second) (hNone : find first = none) : find second = none := by
  cases hFound : find second with
  | none => rfl
  | some found =>
      obtain ⟨other, hOther⟩ := hFind h.symm hFound
      rw [hNone] at hOther
      cases hOther

/-- What is found in no layout of a text is found in none of the others. The
search for it does not fail either. -/
theorem ok_none_of_relaid {α : Type} {find : List Char → Except Bracket.Fault (Option α)}
    (hFind : ∀ {first second found}, Text.Relaid first second → find first = .ok (some found) →
      ∃ other, find second = .ok (some other))
    (h : Text.Relaid first second) (hOk : ∃ found, find second = .ok found)
    (hNone : find first = .ok none) : find second = .ok none := by
  obtain ⟨found, hFound⟩ := hOk
  cases found with
  | none => exact hFound
  | some found =>
      obtain ⟨other, hOther⟩ := hFind h.symm hFound
      rw [hNone] at hOther
      cases hOther

/-- A balanced text has the same form in every layout. -/
theorem Form.exists_of_relaid {form : Form} (h : Text.Relaid first second) (hText : Balanced first)
    (hForm : Form.of first = .ok form) :
    ∃ other, Form.of second = .ok other ∧ Form.Relaid form other := by
  have hSecond := hText.relaid h
  have hGrouped : grouped? first = .ok none → grouped? second = .ok none := by
    refine ok_none_of_relaid (fun hRelaid hFound => ?_) h (exists_grouped? hSecond)
    obtain ⟨other, hOther, -⟩ := exists_grouped?_relaid hRelaid hFound
    exact ⟨other, hOther⟩
  have hWord {word : String} (hName : isName word.toList = true) :
      afterWord? word first = none → afterWord? word second = none := by
    refine none_of_relaid (fun hRelaid hFound => ?_) h
    obtain ⟨other, hOther, -⟩ := exists_afterWord?_relaid hRelaid hName hFound
    exact ⟨other, hOther⟩
  have hArray : element? first = none → element? second = none := by
    refine none_of_relaid (fun hRelaid hFound => ?_) h
    obtain ⟨other, hOther, -⟩ := exists_element?_relaid hRelaid hFound
    exact ⟨other, hOther⟩
  have hApplied : application? first = .ok none → application? second = .ok none := by
    refine ok_none_of_relaid (fun hRelaid hFound => ?_) h (exists_application? hSecond)
    obtain ⟨other, hOther, -⟩ := exists_application?_relaid hRelaid hFound
    exact ⟨_, hOther⟩
  cases Form.of_eq_ok_iff.mp hForm with
  | grouped found =>
      obtain ⟨other, hOther, hInside⟩ := exists_grouped?_relaid h found
      exact ⟨_, Form.of_eq_ok_iff.mpr (.grouped hOther), .grouped hInside⟩
  | readonlyOf notGrouped found =>
      obtain ⟨other, hOther, hRest⟩ := exists_afterWord?_relaid h rfl found
      exact ⟨_, Form.of_eq_ok_iff.mpr (.readonlyOf (hGrouped notGrouped) hOther), .readonlyOf hRest⟩
  | keyOf notGrouped notReadonly found =>
      obtain ⟨other, hOther, hTarget⟩ := exists_afterWord?_relaid h rfl found
      exact ⟨_, Form.of_eq_ok_iff.mpr (.keyOf (hGrouped notGrouped) (hWord rfl notReadonly) hOther),
        .keyOf hTarget⟩
  | array notGrouped notReadonly notKeyOf found =>
      obtain ⟨other, hOther, hElement⟩ := exists_element?_relaid h found
      exact ⟨_, Form.of_eq_ok_iff.mpr (.array (hGrouped notGrouped) (hWord rfl notReadonly)
        (hWord rfl notKeyOf) hOther), .array hElement⟩
  | applied notGrouped notReadonly notKeyOf notArray found =>
      obtain ⟨other, hOther, hArgument⟩ := exists_application?_relaid h found
      exact ⟨_, Form.of_eq_ok_iff.mpr (.applied (hGrouped notGrouped) (hWord rfl notReadonly)
        (hWord rfl notKeyOf) (hArray notArray) hOther), .applied hArgument⟩
  | plain notGrouped notReadonly notKeyOf notArray notApplied =>
      exact ⟨_, Form.of_eq_ok_iff.mpr (.plain (hGrouped notGrouped) (hWord rfl notReadonly)
        (hWord rfl notKeyOf) (hArray notArray) (hApplied notApplied)), .plain⟩

/-! ### Readers -/

/-- Opaque types are the same in every layout. -/
theorem opaqueType_relaid (h : Text.Relaid first second) : opaqueType first = opaqueType second := by
  rw [opaqueType, h.normalise_eq, opaqueType]

/-- A name has one layout only, and every other plain text is opaque. -/
theorem ofPlain_relaid (h : Text.Relaid first second) :
    ofPlain generics first = ofPlain generics second := by
  have hName {first second : List Char} (h : Text.Relaid first second)
      (hFirst : isName first = true) : first = second :=
    (h.eq_of_no_blank fun c hc => isBlank_of_isNameChar (isNameChar_of_isName hFirst hc))
  by_cases hFirst : isName first = true
  · rw [hName h hFirst]
  · by_cases hSecond : isName second = true
    · rw [hName h.symm hSecond]
    · rw [ofPlain, if_neg hFirst, ofPlain, if_neg hSecond, opaqueType_relaid h]

/-- The members of a union are cut at the same bars in every layout. -/
theorem exists_memberTexts_relaid {pieces : List (List Char)} (h : Text.Relaid first second)
    (hPieces : memberTexts first = .ok pieces) :
    ∃ others, memberTexts second = .ok others ∧ List.Forall₂ Text.Relaid pieces others := by
  obtain ⟨cut, hCut, hAll⟩ := bind_ok hPieces
  cases hAll
  obtain ⟨others, hOthers, hSame⟩ := splitTop_relaid rfl (by decide) h hCut
  refine ⟨(others.map trim).filter (!·.isEmpty), by simp [memberTexts, hOthers], ?_⟩
  refine List.rel_filter (fun piece other hPiece => ?_)
    (List.rel_map (fun piece other hPiece => hPiece.trim) hSame)
  simp only [Bool.not_eq_true', List.isEmpty_eq_false_iff]
  exact ⟨hPiece.ne_nil, hPiece.symm.ne_nil⟩

/-- What the reader gives for the text it gives for every layout of it. -/
def Layoutless (read : List Char → Except Fault TypeExpr) (text : List Char) : Prop :=
  ∀ ⦃other t⦄, Text.Relaid text other → read text = .ok t → read other = .ok t

theorem layoutless_pieces {pieces others : List (List Char)} {members : List TypeExpr}
    {read : List Char → Except Fault TypeExpr} (hSame : List.Forall₂ Text.Relaid pieces others)
    (h : ∀ piece ∈ pieces, Layoutless read piece)
    (hMembers : List.Forall₂ (fun piece member => read piece = .ok member) pieces members) :
    List.Forall₂ (fun piece member => read piece = .ok member) others members := by
  induction hSame generalizing members with
  | nil => exact hMembers
  | cons hPiece _ ih =>
      obtain ⟨hHead, hTail⟩ := List.forall_mem_cons.mp h
      cases hMembers with
      | cons hRead hRest => exact .cons (hHead hPiece hRead) (ih hTail hRest)

/-- A text is read without regard to its layout if its members are. This is
one half of the induction that the parser's recursion calls for. -/
theorem layoutless_of_members (h : ∀ pieces, memberTexts (trim text) = .ok pieces →
    ∀ piece ∈ pieces, Balanced piece → Layoutless (parseMember generics) piece) :
    Layoutless (parse generics) text := by
  intro other t hRelaid hReads
  have hTrim := hRelaid.trim
  rw [parse_eq_ok_iff] at hReads ⊢
  obtain ⟨hNil, hReads⟩ := hReads
  refine ⟨hTrim.ne_nil hNil, ?_⟩
  rcases hReads with ⟨hArrow, rfl⟩ | ⟨hArrow, pieces, members, hPieces, hMembers, hUnion⟩
  · exact Or.inl ⟨hasArrow_relaid hTrim hArrow, opaqueType_relaid hTrim⟩
  · obtain ⟨others, hOthers, hSame⟩ := exists_memberTexts_relaid hTrim hPieces
    have hAlike := layoutless_pieces hSame
      (fun piece hPiece => h pieces hPieces piece hPiece (balanced_of_mem_memberTexts hPieces hPiece))
      hMembers
    exact Or.inr ⟨hasArrow_relaid hTrim hArrow, others, members, hOthers, hAlike, hUnion⟩

/-- A form is read alike in every layout if its parts are. -/
theorem readForm_relaid {form other : Form} (hText : Text.Relaid first second)
    (hForm : Form.Relaid form other)
    (h : ∀ part ∈ form.parts, Layoutless (parse generics) part ∧
      Layoutless (parseMember generics) part)
    (hReads : readForm generics first form = .ok t) : readForm generics second other = .ok t := by
  have hMap {read : List Char → Except Fault TypeExpr} {part other : List Char}
      {wrap : TypeExpr → TypeExpr} (hPart : Layoutless read part) (hRelaid : Text.Relaid part other)
      (hWrapped : (read part).map wrap = .ok t) : (read other).map wrap = .ok t := by
    obtain ⟨inner, hInner, rfl⟩ := map_ok hWrapped
    rw [hPart hRelaid hInner]
    rfl
  cases hForm with
  | grouped hInside => exact (h _ List.mem_cons_self).1 hInside hReads
  | readonlyOf hRest => exact (h _ List.mem_cons_self).2 hRest hReads
  | keyOf hTarget => exact hMap (h _ List.mem_cons_self).2 hTarget hReads
  | array hElement => exact hMap (h _ List.mem_cons_self).2 hElement hReads
  | applied hArgument =>
      have hPart := (h _ List.mem_cons_self).1
      rw [readForm] at hReads ⊢
      split at hReads
      · next hPromise =>
          rw [if_pos hPromise]
          exact hMap hPart hArgument hReads
      · next hPromise =>
          rw [if_neg hPromise]
          split at hReads
          · next hArray =>
              rw [if_pos hArray]
              exact hMap hPart hArgument hReads
          · next hArray =>
              rw [if_neg hArray, ← opaqueType_relaid hText]
              exact hReads
  | plain =>
      rw [readForm, ← ofPlain_relaid hText]
      exact hReads

/-- And a member is if the parts of its form are, which is the other
half. -/
theorem layoutless_of_parts (h : ∀ form, Form.of (trim text) = .ok form → ∀ part ∈ form.parts,
      Layoutless (parse generics) part ∧ (Balanced part → Layoutless (parseMember generics) part))
    (hText : Balanced text) : Layoutless (parseMember generics) text := by
  intro other t hRelaid hReads
  obtain ⟨form, hForm, hReads⟩ := parseMember_eq_ok_iff.mp hReads
  obtain ⟨otherForm, hOther, hSame⟩ := Form.exists_of_relaid hRelaid.trim hText.trim hForm
  refine parseMember_eq_ok_iff.mpr ⟨otherForm, hOther,
    readForm_relaid hRelaid.trim hSame (fun part hPart => ?_) hReads⟩
  obtain ⟨hWhole, hMember⟩ := h form hForm part hPart
  exact ⟨hWhole, hMember ((Form.of_eq_ok_iff.mp hForm).balanced_parts hText.trim hPart)⟩

/-- Neither reader depends on the layout of what it reads. -/
theorem layoutless_of_reading (text : List Char) :
    Layoutless (parse generics) text ∧
      (Balanced text → Layoutless (parseMember generics) text) :=
  reading_induction (fun _ => layoutless_of_members) (fun _ => layoutless_of_parts) text

/-- A type is read from its words. -/
theorem parse_normalise_iff : parse generics (normalise text) = .ok t ↔ parse generics text = .ok t := by
  have hWords := (trimmed_trim text).relaid_normalise
  rw [normalise_trim] at hWords
  rw [← parse_trim generics text]
  exact ⟨fun h => (layoutless_of_reading _).1 hWords.symm h,
    fun h => (layoutless_of_reading _).1 hWords h⟩

/-- Texts with the same words are the same types. Reading gives the same
result for both or fails for both, whatever blanks, line ends or tabs stand
between the words. -/
theorem parse_ok_iff_of_normalise_eq (h : normalise first = normalise second) :
    parse generics first = .ok t ↔ parse generics second = .ok t := by
  rw [← parse_normalise_iff, h, parse_normalise_iff]

/-- A union that is wrapped over several lines and its one line. -/
theorem parse_wrapped :
    let wrapped := "Promise<\n  | T[]\n  | 'a\t b'\n>".toList
    let flat := " Promise< | T[] | 'a b' >".toList
    normalise wrapped = normalise flat ∧
      parse ["T"] flat =
        .ok (.promiseOf (.unionOf [.arrayOf (.genericRef "T"), .reference "'a b'"])) := by
  intro wrapped flat
  have hWords : normalise wrapped = normalise flat := by decide +kernel
  exact ⟨hWords, (parse_ok_iff_of_normalise_eq hWords).mp (by decide +kernel)⟩

end ScriptBindings.TypeExpr
