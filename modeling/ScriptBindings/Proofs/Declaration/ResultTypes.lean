import ScriptBindings.Declaration.SignatureParser
import ScriptBindings.Proofs.Declaration.Partition

/-! Whether a function declaration stays one statement. It does exactly if
what follows every closing brace outside all brackets continues the block. A
conditional type does not: neither `extends` nor `?` nor `:` continues a
block, so that an object type in front of them ends the declaration. -/
namespace ScriptBindings.Declaration

open Text Outcomes ScriptBindings.Bracket

variable {text first second block rest word inside source declaration : List Char}
  {found : List Span} {span : Span} {offset : Nat} {c : Char}

/-! ### One statement -/

namespace Divided

/-- A text without any statement has nothing but blanks and semicolons in
it. -/
theorem isGap_of_mem (h : Divided offset text []) (hMem : c ∈ text) : isGap c = true := by
  generalize hFound : ([] : List Span) = found at h
  induction h with
  | nil => cases hMem
  | gap hGap _ ih =>
      rcases List.mem_cons.mp hMem with rfl | hRest
      · exact hGap
      · exact ih hRest hFound
  | statement => cases hFound

/-- A text in front of its semicolon that makes one statement is not cut. -/
theorem unsevered (h : Divided offset (declaration ++ [';']) [span])
    (hHead : ∃ c, declaration.head? = some c ∧ isBlank c = false)
    (hBalanced : Balanced declaration) (hLacks : Lacks [';'] declaration) :
    Unsevered declaration := by
  obtain ⟨d, hFirst, hVisible⟩ := hHead
  obtain ⟨declared, rfl⟩ := List.head?_eq_some_iff.mp hFirst
  generalize hText : d :: declared ++ [';'] = text at h
  cases h with
  | gap hGap =>
      cases hText
      exact absurd .nil (hLacks [] declared (by rw [eq_semicolon_of_isGap hGap hVisible]; rfl))
  | @statement _ body rest _ hBody hBodyBalanced hEnd later =>
      rcases cases_of_concat_eq_append hText with ⟨-, rfl⟩ | ⟨rest, rfl, hDeclared⟩
      · exact absurd hBalanced (hBody.lacks _ [] rfl)
      · cases rest with
        | nil =>
            rw [List.append_nil] at hDeclared
            exact hDeclared ▸ hBody.unsevered
        | cons b rest =>
            rcases hEnd with hNil | hSemicolon | ⟨-, c, hNext, hStops⟩
            · cases hNil
            · cases hSemicolon
              exact absurd hBodyBalanced (hLacks body rest hDeclared)
            · -- only a semicolon could follow the block, and it continues the block
              have hMem := (List.dropWhile_sublist _).mem (List.mem_of_mem_head? hNext)
              obtain rfl :=
                eq_semicolon_of_isGap (later.isGap_of_mem hMem) (isBlank_of_head?_trimStart hNext)
              cases hStops

end Divided

/-- A text in front of its semicolon is one statement exactly if every block
in it that something follows is continued. -/
theorem statements_single_iff (hSource : (blankComments source).text = declaration ++ [';'])
    (hHead : ∃ c, declaration.head? = some c ∧ isBlank c = false)
    (hBalanced : Balanced declaration) (hLacks : Lacks [';'] declaration) :
    (∃ statement, statements source = .ok [statement] ∧ statement.text = trim declaration) ↔
      Unsevered declaration := by
  constructor
  · rintro ⟨statement, hStatements, -⟩
    obtain ⟨extents, hDivided, hReads⟩ := exists_divided_of_statements hStatements
    obtain ⟨span, rfl⟩ : ∃ span, extents = [span] := List.length_eq_one_iff.mp hReads.length_eq.symm
    rw [hSource] at hDivided
    exact hDivided.unsevered hHead hBalanced hLacks
  · intro hUnsevered
    have hDivided : Divided 0 (declaration ++ [';']) [⟨0, 0 + byteCount declaration⟩] :=
      .statement ⟨hHead, hLacks, hUnsevered⟩ hBalanced (Or.inr (Or.inl rfl)) (.gap rfl .nil)
    rw [← hSource] at hDivided
    obtain ⟨read, hStatements, hReads⟩ := exists_statements_of_divided hDivided
    cases hReads with
    | @cons statement _ _ _ hRead hRest =>
        cases hRest
        refine ⟨statement, hStatements, ?_⟩
        rw [hRead.2, hSource]
        exact congrArg trim (slice_append [] declaration [';'])

/-! ### Texts that are put together -/

/-- A balanced text without a `;` outside all brackets, as the text of a
type is. -/
structure Phrase (text : List Char) : Prop where
  balanced : Balanced text
  lacks : Lacks [';'] text

/-- What stands behind a balanced text is read as from the start. -/
theorem closesBlock_append_iff (hFirst : Balanced first) (hMeets : MeetsPlainly first second)
    (hNil : second ≠ []) : ClosesBlock (first ++ second) ↔ ClosesBlock second := by
  rw [closesBlock_iff, closesBlock_iff, hFirst.append_iff_of_meets hMeets,
    List.getLast?_append_of_ne_nil _ hNil]

/-- A text is cut in one of its parts, or where they meet. At the seam it
takes a block that ends there and a next character that does not continue
it. -/
theorem unsevered_append_iff (hFirst : Balanced first) (hMeets : MeetsPlainly first second) :
    Unsevered (first ++ second) ↔ Unsevered first ∧ Unsevered second ∧
      (EndsInBlock first → ∀ c, (trimStart second).head? = some c → continuesBlock c = true) := by
  constructor
  · intro h
    refine ⟨h.of_append, ?_, ?_⟩
    · rintro block rest c rfl hBlock hHead
      exact h (first ++ block) rest c (List.append_assoc _ _ _).symm
        ((closesBlock_append_iff hFirst hMeets.of_append hBlock.ne_nil).mpr hBlock) hHead
    · rintro ⟨block, blanks, rfl, hBlock, hBlanks⟩ c hHead
      refine h block (blanks ++ second) c (List.append_assoc _ _ _) hBlock ?_
      rw [trimStart_append_of_blank hBlanks, hHead]
  · rintro ⟨hUnsevered, hSecond, hNext⟩ block rest c hText hBlock hHead
    rcases List.append_eq_append_iff.mp hText with ⟨more, rfl, rfl⟩ | ⟨more, rfl, rfl⟩
    · cases more with
      | nil =>
          rw [List.append_nil] at hBlock
          exact hNext ⟨first, [], (List.append_nil _).symm, hBlock, by simp⟩ c hHead
      | cons d more =>
          rw [closesBlock_append_iff hFirst hMeets.of_append (List.cons_ne_nil d more)] at hBlock
          exact hSecond (d :: more) rest c rfl hBlock hHead
    · by_cases hBlanks : ∀ b ∈ more, isBlank b = true
      · rw [trimStart_append_of_blank hBlanks] at hHead
        exact hNext ⟨block, more, rfl, hBlock, hBlanks⟩ c hHead
      · rw [head?_trimStart_append hBlanks] at hHead
        exact hUnsevered block more c rfl hBlock hHead

/-- A balanced text in which nothing outside all brackets ends a
statement. -/
structure Seamless (text : List Char) : Prop where
  balanced : Balanced text
  last : text.getLast? ≠ some '='
  lacks : Lacks [';'] text
  noBlock : ∀ block rest, text = block ++ rest → ¬ClosesBlock block

namespace Seamless

/-- Where no block ends there is none that could end the statement. -/
theorem unsevered (h : Seamless text) : Unsevered text :=
  fun block rest _ hText hBlock => absurd hBlock (h.noBlock block rest hText)

theorem not_endsInBlock (h : Seamless text) : ¬EndsInBlock text := by
  rintro ⟨block, blanks, hText, hBlock, -⟩
  exact h.noBlock block blanks hText hBlock

theorem of_plain (h : ∀ c ∈ text, isPlain c = true) (hSemicolon : ';' ∉ text) : Seamless text where
  balanced := .of_plain h
  last := Balanced.getLast?_plain h
  lacks := .of_not_mem List.mem_cons_self hSemicolon
  noBlock := by
    rintro block rest rfl hBlock
    have hBrace := h '\x7d' (List.mem_append_left rest (List.mem_of_getLast? hBlock.last))
    cases hBrace

theorem of_blanks (h : ∀ c ∈ text, isBlank c = true) : Seamless text :=
  of_plain (fun c hc => isPlain_of_isBlank (h c hc)) fun hMem => by cases h _ hMem

/-- Seamless texts may be put one behind the other, since no block ends in
either of them. -/
theorem append (h : Seamless first) (hSecond : Seamless second) : Seamless (first ++ second) where
  balanced := h.balanced.append hSecond.balanced h.last
  last := by
    intro hLast
    rcases List.eq_nil_or_concat second with rfl | ⟨tail, c, rfl⟩
    · rw [List.append_nil] at hLast
      exact h.last hLast
    · rw [List.getLast?_append_of_ne_nil _ (by simp)] at hLast
      exact hSecond.last hLast
  lacks := h.lacks.append_of_meets hSecond.lacks h.balanced (.of_last h.last)
  noBlock := by
    intro block rest hText hBlock
    rcases List.append_eq_append_iff.mp hText with ⟨more, rfl, hMore⟩ | ⟨more, hFirst, -⟩
    · cases more with
      | nil => exact h.noBlock first [] (List.append_nil _).symm (by simpa using hBlock)
      | cons d more =>
          rw [closesBlock_append_iff h.balanced (.of_last h.last) (List.cons_ne_nil d more)] at hBlock
          exact hSecond.noBlock (d :: more) rest hMore hBlock
    · exact h.noBlock block more hFirst hBlock

/-- A group that is no block. -/
theorem group {opener closer : Char} {kind : Bracket} (h : Balanced inside)
    (hOpener : opening? opener = some kind) (hCloser : closing? closer = some kind)
    (hLast : kind = .angle → inside.getLast? ≠ some '=') (hKind : kind ≠ .curly) :
    Seamless (opener :: (inside ++ [closer])) where
  balanced := h.group hOpener hCloser hLast
  last := by
    rw [← List.cons_append, List.getLast?_concat]
    rintro ⟨⟩
    cases hCloser
  lacks := by
    refine .group h hOpener ?_ (List.cons_ne_nil _ _)
    rintro ⟨⟩
    cases hOpener
  noBlock := by
    intro block rest hText hBlock
    cases block with
    | nil => exact hBlock.ne_nil rfl
    | cons c tail =>
        obtain ⟨rfl, hTail⟩ : opener = c ∧ inside ++ [closer] = tail ++ rest :=
          List.cons.inj hText
        rcases cases_of_concat_eq_append hTail with ⟨-, rfl⟩ | ⟨rest, -, rfl⟩
        · have hLast := hBlock.last
          rw [← List.cons_append, List.getLast?_concat] at hLast
          cases hLast
          cases hCloser
          exact hKind rfl
        · exact not_balanced_of_open h hOpener hBlock.balanced

end Seamless

/-! ### Function declarations -/

/-- The clause of type parameters with the blanks around it, which may be
left out. -/
inductive GenericClause : List Char → Prop where
  | absent {blanks : List Char} (hBlanks : ∀ c ∈ blanks, isBlank c = true) : GenericClause blanks
  | present {front inside back : List Char} (hFront : ∀ c ∈ front, isBlank c = true)
      (hInside : Balanced inside) (hLast : inside.getLast? ≠ some '=')
      (hBack : ∀ c ∈ back, isBlank c = true) :
      GenericClause (front ++ ('<' :: (inside ++ ['>']) ++ back))

/-- A function declaration up to the type of its result: the keywords, the
name, the type parameters, the parameters and the colon. -/
inductive FunctionHead : List Char → Prop where
  | mk {head name clause parameters blanks : List Char}
      (hKeywords : Signature.afterKeywords? head =
        some (name ++ (clause ++ ('(' :: (parameters ++ [')']) ++ (blanks ++ [':'])))))
      (hName : isName name = true) (hClause : GenericClause clause)
      (hParameters : Balanced parameters) (hBlanks : ∀ c ∈ blanks, isBlank c = true) :
      FunctionHead head

/-- A clause of type parameters ends no statement, whatever braces stand in
its brackets. -/
theorem GenericClause.seamless (h : GenericClause text) : Seamless text := by
  cases h with
  | absent hBlanks => exact .of_blanks hBlanks
  | present hFront hInside hLast hBack =>
      have hGroup : Seamless ('<' :: (_ ++ ['>'])) :=
        .group hInside (show opening? '<' = some .angle from rfl) rfl (fun _ => hLast) (by decide)
      exact (Seamless.of_blanks hFront).append (hGroup.append (.of_blanks hBack))

theorem Seamless.of_isName {name : List Char} (h : isName name = true) : Seamless name :=
  .of_plain (isPlain_of_isName h) (not_mem_of_isName h rfl)

/-- A keyword may stand before a seamless text with its blanks. -/
theorem Seamless.of_afterWord? {word : String} (h : Seamless rest)
    (hWord : isName word.toList = true) (hAfter : afterWord? word text = some rest) :
    Seamless text := by
  obtain ⟨c, tail, rfl, hBlank, rfl⟩ := afterWord?_eq_some_iff.mp hAfter
  obtain ⟨blanks, hTail, hBlanks⟩ := exists_trimStart tail
  have hLead : Seamless (c :: blanks) := .of_blanks (List.forall_mem_cons.mpr ⟨hBlank, hBlanks⟩)
  rw [hTail]
  exact (Seamless.of_isName hWord).append (hLead.append h)

namespace FunctionHead

/-- The head of a function ends no statement, so that a block can only come
from the result type. -/
theorem seamless (h : FunctionHead text) : Seamless text := by
  cases h with
  | @mk name clause parameters blanks hKeywords hName hClause hParameters hBlanks =>
      have hGroup : Seamless ('(' :: (parameters ++ [')'])) :=
        .group hParameters (show opening? '(' = some .round from rfl) rfl nofun (by decide)
      have hColon : Seamless [':'] := .of_plain (List.forall_mem_singleton.mpr rfl) (by decide)
      have hSignature := (Seamless.of_isName hName).append
        (hClause.seamless.append (hGroup.append ((Seamless.of_blanks hBlanks).append hColon)))
      obtain ⟨rest, hExport, hFunction⟩ := Option.bind_eq_some_iff.mp hKeywords
      have hDeclared := hSignature.of_afterWord? (by decide) hFunction
      refine Seamless.of_afterWord? ?_ (by decide) hExport
      cases hDeclare : afterWord? "declare" rest with
      | none => rwa [hDeclare, Option.getD_none] at hDeclared
      | some more =>
          rw [hDeclare, Option.getD_some] at hDeclared
          exact hDeclared.of_afterWord? (by decide) hDeclare

/-- The head begins with a visible character, where the statement begins. -/
theorem head (h : FunctionHead text) : ∃ c, text.head? = some c ∧ isBlank c = false := by
  cases h with
  | mk hKeywords _ _ _ _ =>
      obtain ⟨rest, hExport, -⟩ := Option.bind_eq_some_iff.mp hKeywords
      obtain ⟨c, tail, rfl, -, -⟩ := afterWord?_eq_some_iff.mp hExport
      exact ⟨'e', rfl, rfl⟩

end FunctionHead

/-! ### Conditional types -/

/-- The text of the type `check extends bound ? yes : no`, with whatever
blanks stand around the four types in their texts. -/
def conditional (check bound yes no : List Char) : List Char :=
  check ++ ("extends".toList ++ (bound ++ (['?'] ++ (yes ++ ([':'] ++ no)))))

/-- A word that continues no block keeps two texts from being one if a block
ends the first. -/
structure SeversBlock (word : List Char) : Prop where
  plain : ∀ c ∈ word, isPlain c = true
  noSemicolon : ';' ∉ word
  head : ∃ c, word.head? = some c ∧ isBlank c = false ∧ continuesBlock c = false

namespace SeversBlock

theorem ne_nil (h : SeversBlock word) : word ≠ [] := by
  rintro rfl
  obtain ⟨c, hHead, -⟩ := h.head
  cases hHead

theorem seamless (h : SeversBlock word) : Seamless word :=
  .of_plain h.plain h.noSemicolon

/-- A word between two phrases makes one phrase of them, as the operators of
a conditional type do. -/
theorem phrase (h : SeversBlock word) (hFirst : Phrase first) (hRest : Phrase rest) :
    Phrase (first ++ (word ++ rest)) := by
  have hWord := h.seamless
  have hMeets : MeetsPlainly first (word ++ rest) := .plain h.ne_nil h.plain
  have hBehind : Phrase (word ++ rest) :=
    ⟨hWord.balanced.append hRest.balanced hWord.last,
      hWord.lacks.append_of_meets hRest.lacks hWord.balanced (.of_last hWord.last)⟩
  exact ⟨(hFirst.balanced.append_iff_of_meets hMeets).mpr hBehind.balanced,
    hFirst.lacks.append_of_meets hBehind.lacks hFirst.balanced hMeets⟩

/-- A word that continues no block ends the statement exactly behind a
block. This is the one place where the text of a type can be cut apart. -/
theorem unsevered_iff (h : SeversBlock word) (hFirst : Balanced first) :
    Unsevered (first ++ (word ++ rest)) ↔
      (Unsevered first ∧ ¬EndsInBlock first) ∧ Unsevered rest := by
  have hWord := h.seamless
  have hBehind : Unsevered (word ++ rest) ↔ Unsevered rest := by
    rw [unsevered_append_iff hWord.balanced (.of_last hWord.last)]
    simp [hWord.unsevered, hWord.not_endsInBlock]
  obtain ⟨c, hHead, hVisible, hStops⟩ := h.head
  have hNext : (trimStart (word ++ rest)).head? = some c := by
    have hFirst : (word ++ rest).head? = some c := by
      rw [List.head?_append, hHead, Option.some_or]
    rw [trimStart_eq_self (by simpa [hFirst] using hVisible), hFirst]
  rw [unsevered_append_iff hFirst (.plain h.ne_nil h.plain), hBehind, hNext]
  simp [hStops]
  tauto

end SeversBlock

theorem seversBlock_extends : SeversBlock "extends".toList :=
  ⟨isPlain_of_isName rfl, by decide, 'e', rfl, rfl, rfl⟩

theorem seversBlock_question : SeversBlock ['?'] :=
  ⟨List.forall_mem_singleton.mpr rfl, by decide, '?', rfl, rfl, rfl⟩

theorem seversBlock_colon : SeversBlock [':'] :=
  ⟨List.forall_mem_singleton.mpr rfl, by decide, ':', rfl, rfl, rfl⟩

section

variable {head check bound yes no : List Char}

/-- A conditional type is a phrase, so that brackets alone do not show where
it is cut. -/
theorem phrase_conditional (hCheck : Phrase check) (hBound : Phrase bound) (hYes : Phrase yes)
    (hNo : Phrase no) : Phrase (conditional check bound yes no) :=
  seversBlock_extends.phrase hCheck
    (seversBlock_question.phrase hBound (seversBlock_colon.phrase hYes hNo))

/-- A conditional type is cut in one of its four types, or behind a block
that one of the first three ends in. -/
theorem unsevered_conditional_iff (hCheck : Phrase check) (hBound : Phrase bound)
    (hYes : Phrase yes) :
    Unsevered (conditional check bound yes no) ↔
      (Unsevered check ∧ ¬EndsInBlock check) ∧ (Unsevered bound ∧ ¬EndsInBlock bound) ∧
        (Unsevered yes ∧ ¬EndsInBlock yes) ∧ Unsevered no := by
  rw [conditional, seversBlock_extends.unsevered_iff hCheck.balanced,
    seversBlock_question.unsevered_iff hBound.balanced,
    seversBlock_colon.unsevered_iff hYes.balanced]

/-- A function whose result type is conditional is one statement with the
whole type exactly if no block of the four types is followed by anything but
`;`, `|`, `&` or `[`, and none of the first three ends in a block. -/
theorem statements_conditional_iff (hHead : FunctionHead head) (hCheck : Phrase check)
    (hBound : Phrase bound) (hYes : Phrase yes) (hNo : Phrase no)
    (hSource : (blankComments source).text = head ++ conditional check bound yes no ++ [';']) :
    (∃ statement, statements source = .ok [statement] ∧
        statement.text = trim (head ++ conditional check bound yes no)) ↔
      (Unsevered check ∧ ¬EndsInBlock check) ∧ (Unsevered bound ∧ ¬EndsInBlock bound) ∧
        (Unsevered yes ∧ ¬EndsInBlock yes) ∧ Unsevered no := by
  have hSeamless := hHead.seamless
  have hType := phrase_conditional hCheck hBound hYes hNo
  have hMeets : MeetsPlainly head (conditional check bound yes no) := .of_last hSeamless.last
  obtain ⟨c, hFirst, hVisible⟩ := hHead.head
  rw [statements_single_iff hSource ⟨c, by rw [List.head?_append, hFirst, Option.some_or], hVisible⟩
      (hSeamless.balanced.append hType.balanced hSeamless.last)
      (hSeamless.lacks.append_of_meets hType.lacks hSeamless.balanced hMeets),
    unsevered_append_iff hSeamless.balanced hMeets, ← unsevered_conditional_iff hCheck hBound hYes]
  simp [hSeamless.unsevered, hSeamless.not_endsInBlock]

end

/-- Object types in brackets, in front of `[` and at the end of the type are
kept. -/
theorem statements_conditional_kept :
    ∃ statement, statements ("export function f(): A<\x7b b: C \x7d> extends " ++
        "\x7b b: C \x7d[] ? D : \x7b e: F \x7d;").toList = .ok [statement] ∧
      statement.text = ("export function f(): A<\x7b b: C \x7d> extends " ++
        "\x7b b: C \x7d[] ? D : \x7b e: F \x7d").toList := by
  have hHead : FunctionHead "export function f():".toList :=
    @FunctionHead.mk _ ['f'] [] [] [] (by decide) (by decide) (.absent (by simp)) .nil (by simp)
  have hCheck : Phrase " A<\x7b b: C \x7d> ".toList := ⟨by decide +kernel, by decide +kernel⟩
  have hBound : Phrase " \x7b b: C \x7d[] ".toList := ⟨by decide +kernel, by decide +kernel⟩
  have hYes : Phrase " D ".toList := ⟨by decide, by decide⟩
  have hNo : Phrase " \x7b e: F \x7d".toList := ⟨by decide +kernel, by decide +kernel⟩
  have hSource : (blankComments ("export function f(): A<\x7b b: C \x7d> extends " ++
      "\x7b b: C \x7d[] ? D : \x7b e: F \x7d;").toList).text =
    "export function f():".toList ++ conditional " A<\x7b b: C \x7d> ".toList
      " \x7b b: C \x7d[] ".toList " D ".toList " \x7b e: F \x7d".toList ++ [';'] := by decide +kernel
  obtain ⟨statement, hStatements, hText⟩ :=
    (statements_conditional_iff hHead hCheck hBound hYes hNo hSource).mpr (by decide +kernel)
  exact ⟨statement, hStatements, hText.trans (by decide +kernel)⟩

/-- Not every conditional result type is kept: `extends` does not continue
the object type in front of it, and the rest of the type becomes a statement
of its own. -/
theorem not_statements_conditional :
    ¬∀ head check bound yes no source : List Char, FunctionHead head → Phrase check →
      Phrase bound → Phrase yes → Phrase no →
      (blankComments source).text = head ++ conditional check bound yes no ++ [';'] →
      ∃ statement, statements source = .ok [statement] ∧
        statement.text = trim (head ++ conditional check bound yes no) := by
  intro h
  have hHead : FunctionHead "export function f():".toList :=
    @FunctionHead.mk _ ['f'] [] [] [] (by decide) (by decide) (.absent (by simp)) .nil (by simp)
  obtain ⟨statement, hStatements, -⟩ := h "export function f():".toList
    " \x7b a: string \x7d ".toList " B ".toList " C ".toList " D".toList
    "export function f(): \x7b a: string \x7d extends B ? C : D;".toList hHead
    ⟨by decide +kernel, by decide +kernel⟩ ⟨by decide +kernel, by decide +kernel⟩
    ⟨by decide +kernel, by decide +kernel⟩ ⟨by decide +kernel, by decide +kernel⟩
    (by decide +kernel)
  have hSevered : statements "export function f(): \x7b a: string \x7d extends B ? C : D;".toList =
      .ok [⟨0, "export function f(): \x7b a: string \x7d".toList, none⟩,
        ⟨35, "extends B ? C : D".toList, none⟩] := by decide +kernel
  rw [hSevered] at hStatements
  cases hStatements

end ScriptBindings.Declaration
