import ScriptBindings.Proofs.Declaration.CommentTransparency
import ScriptBindings.Proofs.Declaration.Division
import ScriptBindings.Proofs.Declaration.Rendering
import ScriptBindings.Proofs.Text.Offsets

/-! Declarations written one a line read back. Each line is one statement,
since no semicolon and no brace stands before its end, and each statement is
the signature it was written for. -/
namespace ScriptBindings

open Text Outcomes ScriptBindings.Bracket

namespace Declaration

variable {text rest : List Char} {texts : List (List Char)}

/-- A text that makes one statement in front of a semicolon. -/
structure OneStatement (text : List Char) : Prop where
  balanced : Balanced text
  noEnd : ';' ∉ text
  noBrace : '\x7d' ∉ text
  trimmed : Trimmed text
  ne_nil : text ≠ []

/-- The texts as statements, one a line. -/
def statementLines (texts : List (List Char)) : List Char :=
  texts.flatMap fun text => text ++ [';', '\n']

/-- The extents of statements that stand one a line. -/
def lineSpans : Nat → List (List Char) → List Span
  | _, [] => []
  | offset, text :: rest =>
      ⟨offset, offset + byteCount text⟩ :: lineSpans (offset + byteCount text + 2) rest

/-- A text that is one statement has no place at which it could be
divided. -/
theorem OneStatement.undivided (h : OneStatement text) : Undivided text where
  head := by
    obtain ⟨c, rest, rfl⟩ := List.exists_cons_of_ne_nil h.ne_nil
    exact ⟨c, rfl, h.trimmed.head c rfl⟩
  lacks := .of_not_mem List.mem_cons_self h.noEnd
  unsevered := by
    rintro block rest c rfl hBlock
    exact absurd (List.mem_append_left rest (List.mem_of_getLast? hBlock.last)) h.noBrace

/-- Statements that stand one a line are divided at the ends of the
lines. -/
theorem divided_lines (offset : Nat) (h : ∀ text ∈ texts, OneStatement text) :
    Divided offset (statementLines texts) (lineSpans offset texts) := by
  induction texts generalizing offset with
  | nil => exact .nil
  | cons text rest ih =>
      obtain ⟨hText, hRest⟩ := List.forall_mem_cons.mp h
      have hLines : statementLines (text :: rest) = text ++ ';' :: '\n' :: statementLines rest := by
        simp [statementLines]
      rw [hLines]
      exact .statement hText.undivided hText.balanced (Or.inr (Or.inl rfl))
        (.gap rfl (.gap rfl (ih _ hRest)))

/-- Each statement has the text of its line and no documentation. -/
theorem statementsFrom_lines (front : List Char) (previous : Nat)
    (h : ∀ text ∈ texts, OneStatement text) :
    List.Forall₂ (fun statement text => statement.text = text ∧ statement.doc = none)
      (statementsFrom ⟨front ++ statementLines texts, []⟩ previous
        (lineSpans (byteCount front) texts)) texts := by
  induction texts generalizing front previous with
  | nil => exact .nil
  | cons text rest ih =>
      obtain ⟨hText, hRest⟩ := List.forall_mem_cons.mp h
      have hLines : front ++ statementLines (text :: rest) =
          front ++ (text ++ (';' :: '\n' :: statementLines rest)) := by
        simp [statementLines]
      have hBehind : front ++ statementLines (text :: rest) =
          (front ++ text ++ [';', '\n']) ++ statementLines rest := by
        simp [statementLines]
      have hOffset : byteCount front + byteCount text + 2 =
          byteCount (front ++ text ++ [';', '\n']) := by
        rw [byteCount_append, byteCount_append]
        rfl
      rw [lineSpans, statementsFrom]
      refine .cons ⟨?_, rfl⟩ ?_
      · dsimp only
        rw [hLines, slice_append, hText.trimmed.trim_eq]
      · rw [hOffset, hBehind]
        exact ih _ _ hRest

/-- Without quotes and slashes there is nothing to blank. -/
theorem blankFrom_eq_self (offset : Nat) (h : ∀ c ∈ text, isQuote c = false ∧ c ≠ '/') :
    blankFrom .code offset text = ⟨text, []⟩ := by
  induction text generalizing offset with
  | nil => rfl
  | cons c rest ih =>
      obtain ⟨⟨hQuote, hSlash⟩, hRest⟩ := List.forall_mem_cons.mp h
      rw [blankFrom_code hQuote fun hSame => absurd hSame hSlash, ih _ hRest]
      rfl

/-- Statements that stand one a line are found one by one. The newlines
between them are blanks that belong to none. -/
theorem statements_lines (h : ∀ text ∈ texts, OneStatement text)
    (hPlain : ∀ text ∈ texts, ∀ c ∈ text, isQuote c = false ∧ c ≠ '/') :
    ∃ found, statements (statementLines texts) = .ok found ∧
      List.Forall₂ (fun statement text => statement.text = text ∧ statement.doc = none) found
        texts := by
  have hClean : ∀ c ∈ statementLines texts, isQuote c = false ∧ c ≠ '/' := by
    intro c hc
    obtain ⟨text, hText, hMem⟩ := List.mem_flatMap.mp hc
    rcases List.mem_append.mp hMem with hBody | hEnd
    · exact hPlain text hText c hBody
    · simp only [List.mem_cons, List.not_mem_nil, or_false] at hEnd
      rcases hEnd with rfl | rfl <;> decide
  have hBlanked : blankComments (statementLines texts) = ⟨statementLines texts, []⟩ :=
    blankFrom_eq_self 0 hClean
  have hSpans : spans (statementLines texts) = .ok (lineSpans 0 texts) :=
    spans_eq_ok_iff.mpr (divided_lines 0 h)
  refine ⟨statementsFrom ⟨statementLines texts, []⟩ 0 (lineSpans 0 texts), ?_, ?_⟩
  · unfold statements
    rw [hBlanked]
    dsimp only
    rw [hSpans]
    rfl
  · exact statementsFrom_lines [] 0 h

end Declaration

open Declaration

variable {f : Signature}

/-- The source that declares these functions, one a line. -/
def declarationSource (functions : List Signature) : String :=
  String.join (functions.map fun f => f.declaration ++ "\n")

/-- The source is the statements of the functions, each on a line of its own
with its semicolon. -/
theorem toList_declarationSource (functions : List Signature) :
    (declarationSource functions).toList = statementLines (functions.map (·.statement)) := by
  have hLine (f : Signature) : (f.declaration ++ "\n").toList = f.statement ++ [';', '\n'] := by
    rw [String.toList_append, f.toList_declaration, List.append_assoc]
    rfl
  unfold declarationSource statementLines
  rw [String.toList_join, List.flatMap_map, List.flatMap_map]
  simp only [hLine]

namespace Signature.WellFormed

/-- A declaration is one statement. It has neither a brace nor a semicolon
of its own that could end it sooner. -/
theorem oneStatement (h : f.WellFormed) : OneStatement f.statement where
  balanced := h.balanced_statement
  noEnd := fun hMem => absurd (h.chars_statement ';' hMem) (by decide)
  noBrace := fun hMem => absurd (h.chars_statement '\x7d' hMem) (by decide)
  trimmed := h.trimmed_statement
  ne_nil := List.append_ne_nil_of_left_ne_nil (by decide) _

/-- A declaration has neither quotes nor slashes, so that blanking leaves it
as it is. -/
theorem nothingToBlank (h : f.WellFormed) : ∀ c ∈ f.statement, isQuote c = false ∧ c ≠ '/' := by
  intro c hc
  have hChar := h.chars_statement c hc
  constructor
  · rw [Bool.eq_false_iff]
    intro hQuote
    simp only [isQuote, Bool.or_eq_true, beq_iff_eq] at hQuote
    rcases hQuote with (rfl | rfl) | rfl <;> cases hChar
  · rintro rfl
    cases hChar

/-- The statement of a declaration comes to the function. -/
theorem ofStatement_eq (h : f.WellFormed) {statement : Statement}
    (hText : statement.text = f.statement) (hDoc : statement.doc = none) :
    Finding.ofStatement statement = .function f.withoutDoc := by
  unfold Finding.ofStatement
  rw [hText, h.afterKeywords?_statement]
  dsimp only
  rw [h.parse_written, hDoc]
  rfl

end Signature.WellFormed

/-- The statements of functions of different names yield them all, in order.
Different names are needed, as a repeated one would be reported. -/
theorem readStatements_functions {path : String} {source : List Char} {taken : List String}
    {found : List Statement} {functions : List Signature}
    (hFound : List.Forall₂ (fun statement f => statement.text = f.statement ∧ statement.doc = none)
      found functions)
    (hWellFormed : ∀ f ∈ functions, f.WellFormed) (hNames : (functions.map (·.name)).Nodup)
    (hTaken : ∀ f ∈ functions, f.name ∉ taken) :
    readStatements path source taken found = (functions.map (·.withoutDoc), []) := by
  induction hFound generalizing taken with
  | nil => rfl
  | @cons statement f found functions hHead _ ih =>
      obtain ⟨hFresh, hRest⟩ := List.nodup_cons.mp hNames
      obtain ⟨hHeadTaken, hTailTaken⟩ := List.forall_mem_cons.mp hTaken
      obtain ⟨hHeadFormed, hTailFormed⟩ := List.forall_mem_cons.mp hWellFormed
      have hLater : ∀ other ∈ functions, other.name ∉ f.name :: taken := by
        intro other hOther hMem
        rcases List.mem_cons.mp hMem with hSame | hOld
        · exact hFresh (List.mem_map.mpr ⟨other, hOther, hSame⟩)
        · exact hTailTaken other hOther hOld
      have hName : f.withoutDoc.name = f.name := rfl
      rw [readStatements, hHeadFormed.ofStatement_eq hHead.1 hHead.2]
      dsimp only
      rw [hName, if_neg (by simpa using hHeadTaken), ih hTailFormed hRest hLater]
      rfl

/-- Functions of different names are read back from the source that declares
them, in order and without anything to report. -/
theorem readModule_declarationSource (path : String) (functions : List Signature)
    (hWellFormed : ∀ f ∈ functions, f.WellFormed) (hNames : (functions.map (·.name)).Nodup) :
    readModule path (declarationSource functions) =
      ⟨some (.ofPath path (functions.map (·.withoutDoc))), []⟩ := by
  have hOne : ∀ text ∈ functions.map (·.statement), OneStatement text := by
    intro text hText
    obtain ⟨f, hf, rfl⟩ := List.mem_map.mp hText
    exact (hWellFormed f hf).oneStatement
  have hPlain : ∀ text ∈ functions.map (·.statement), ∀ c ∈ text, isQuote c = false ∧ c ≠ '/' := by
    intro text hText
    obtain ⟨f, hf, rfl⟩ := List.mem_map.mp hText
    exact (hWellFormed f hf).nothingToBlank
  obtain ⟨found, hFound, hTexts⟩ := statements_lines hOne hPlain
  rw [List.forall₂_map_right_iff] at hTexts
  have hStatements : statements (declarationSource functions).toList = .ok found := by
    rw [toList_declarationSource]
    exact hFound
  have hRead : readStatements path (declarationSource functions).toList [] found =
      (functions.map (·.withoutDoc), []) :=
    readStatements_functions hTexts hWellFormed hNames (by simp)
  rw [readModule_of_statements path hStatements, hRead]

/-- A function with a constrained type parameter and nested types, and one
with nothing but a name. -/
def declaredPair : List Signature :=
  [ { name := "find"
      generics := [⟨"K", some (.keyOf (.reference "Table"))⟩]
      parameters := [⟨"key", .genericRef "K", false⟩,
        ⟨"limit", .unionOf [.primitive .number, .primitive .null], true⟩]
      returnType := .promiseOf (.arrayOf (.unionOf [.primitive .string, .keyOf (.genericRef "K")]))
      doc := some "Finds rows." },
    { name := "close"
      generics := []
      parameters := []
      returnType := .primitive .void
      doc := none } ]

theorem wellFormed_declaredPair : ∀ f ∈ declaredPair, f.WellFormed := by
  have hUnion {s t : TypeExpr} {generics : List String} (hs : TypeExpr.Writable generics s)
      (ht : TypeExpr.Writable generics t) (hFlat : s.isUnion = false ∧ t.isUnion = false)
      (hDiffers : s ≠ t) : TypeExpr.Writable generics (.unionOf [s, t]) := by
    refine .unionOf ?_ ?_ (by simpa using hDiffers) (by simp)
    · simpa using ⟨hs, ht⟩
    · simpa using hFlat
  unfold declaredPair
  rw [List.forall_mem_cons, List.forall_mem_singleton]
  constructor
  · refine ⟨rfl, ?_, ?_, ?_⟩
    · rw [List.forall_mem_singleton]
      refine ⟨rfl, by decide, by decide, ?_⟩
      rintro t ⟨⟩
      exact .keyOf (.reference rfl (by decide) (by decide))
    · rw [List.forall_mem_cons, List.forall_mem_singleton]
      refine ⟨⟨rfl, by decide, .genericRef (by decide)⟩, ⟨rfl, by decide, ?_⟩⟩
      exact hUnion (.primitive _) (.primitive _) ⟨rfl, rfl⟩ (by decide)
    · refine .promiseOf (.arrayOf ?_)
      exact hUnion (.primitive _) (.keyOf (.genericRef (by decide))) ⟨rfl, rfl⟩ (by decide)
  · exact ⟨rfl, by simp, by simp, .primitive _⟩

theorem readModule_declaredPair :
    (∀ f ∈ declaredPair, f.WellFormed) ∧ (declaredPair.map (·.name)).Nodup ∧
      readModule "api.d.ts" (declarationSource declaredPair) =
        ⟨some (.ofPath "api.d.ts" (declaredPair.map (·.withoutDoc))), []⟩ := by
  have hNames : (declaredPair.map (·.name)).Nodup := by decide
  exact ⟨wellFormed_declaredPair, hNames,
    readModule_declarationSource "api.d.ts" declaredPair wellFormed_declaredPair hNames⟩

end ScriptBindings
