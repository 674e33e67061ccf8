import ScriptBindings.Proofs.Bracket.Faults
import ScriptBindings.Proofs.Declaration.Accounting
import ScriptBindings.Proofs.Declaration.CommentTransparency
import ScriptBindings.Proofs.Declaration.Partition

/-! Where diagnostics point. They are found in the source without its
comments, but what stands at their offset stands in the source itself: the
first keyword of a declaration, or a bracket or quote. -/
namespace ScriptBindings

open Text ScriptBindings.Bracket

namespace Text

variable {text : List Char} {stop offset : Nat}

/-- A text that begins no sooner than the place adds no line to it. -/
theorem newlinesBefore_of_le (h : stop ≤ offset) : newlinesBefore stop offset text = 0 := by
  induction text generalizing offset with
  | nil => rfl
  | cons c rest ih =>
      have hNot : ¬offset < stop := by omega
      simp [newlinesBefore, ih (Nat.le_add_right_of_le h), hNot]

/-- A text that ends before the place adds all of its lines. -/
theorem newlinesBefore_of_ends (h : offset + byteCount text ≤ stop) :
    newlinesBefore stop offset text = text.count '\n' := by
  induction text generalizing offset with
  | nil => rfl
  | cons c rest ih =>
      have hSize := c.utf8Size_pos
      rw [byteCount_cons, ← Nat.add_assoc] at h
      have hBefore : offset < stop := by omega
      simp only [newlinesBefore, ih h, List.count_cons, hBefore, decide_true, Bool.and_true]
      split <;> rfl

/-- The line at the end of a leading part is one more than the newlines in
that part. -/
theorem lineAt_byteCount (front rest : List Char) :
    lineAt (byteCount front) (front ++ rest) = front.count '\n' + 1 := by
  rw [lineAt, newlinesBefore_append, newlinesBefore_of_ends (by omega),
    newlinesBefore_of_le (by omega), Nat.add_zero]

end Text

namespace Declaration

variable {stretches : List Stretch} {before after word source body : List Char} {c : Char}

/-! ### What blanking leaves standing -/

/-- A word that stands in the source without its comments stands in the
source, at the same offset. -/
theorem exists_word_of_cleanedOf (hNil : word ≠ []) (hWord : ∀ c ∈ word, isBlank c = false)
    (h : cleanedOf stretches = before ++ (word ++ after)) :
    ∃ front rest, textOf stretches = front ++ (word ++ rest) ∧
      byteCount front = byteCount before := by
  induction stretches generalizing before word with
  | nil => simp [hNil] at h
  | cons s later ih =>
      -- what is left of the word behind the stretch is found at the beginning of the later ones
      have hBehind {more : List Char} (hMore : ∀ c ∈ more, isBlank c = false)
          (hLater : cleanedOf later = more ++ after) : ∃ rest, textOf later = more ++ rest := by
        by_cases hEmpty : more = []
        · exact ⟨textOf later, by rw [hEmpty, List.nil_append]⟩
        · obtain ⟨front, rest, hText, hCount⟩ := @ih [] more hEmpty hMore hLater
          cases front with
          | nil => exact ⟨rest, hText⟩
          | cons d front => exact absurd hCount (byteCount_pos (List.cons_ne_nil d front)).ne'
      rw [cleanedOf_cons] at h
      rw [textOf_cons]
      rcases List.append_eq_append_iff.mp h with ⟨more, rfl, hLater⟩ | ⟨more, hHere, hRest⟩
      · obtain ⟨front, rest, hText, hCount⟩ := ih hNil hWord hLater
        exact ⟨s.text ++ front, rest, by rw [hText, List.append_assoc],
          by rw [byteCount_append, byteCount_append, hCount, s.byteCount_cleaned]⟩
      · cases hComment : s.isComment with
        | true =>
            cases more with
            | nil =>
                obtain ⟨rest, hText⟩ := hBehind hWord hRest.symm
                rw [List.append_nil] at hHere
                exact ⟨s.text, rest, by rw [hText], by rw [← hHere, s.byteCount_cleaned]⟩
            | cons d more =>
                obtain ⟨e, tail, rfl⟩ := List.exists_cons_of_ne_nil hNil
                obtain ⟨rfl, -⟩ := List.cons.inj hRest
                have hBlank := @isBlank_of_mem_cleaned e s hComment (by simp [hHere])
                rw [hWord e List.mem_cons_self] at hBlank
                cases hBlank
        | false =>
            have hText : s.text = before ++ more := by
              rw [← hHere, Stretch.cleaned, hComment, if_neg Bool.false_ne_true]
            rcases List.append_eq_append_iff.mp hRest with ⟨back, rfl, -⟩ | ⟨back, rfl, hLater⟩
            · exact ⟨before, back ++ textOf later, by rw [hText]; simp, rfl⟩
            · rw [List.forall_mem_append] at hWord
              obtain ⟨rest, hRestText⟩ := hBehind hWord.2 hLater
              exact ⟨before, rest, by rw [hText, hRestText]; simp, rfl⟩

/-- A word without blanks in the cleaned text stands at the same offset in
the source, because blanking writes nothing but blanks. -/
theorem exists_word_of_blankComments (hNil : word ≠ []) (hWord : ∀ c ∈ word, isBlank c = false)
    (h : (blankComments source).text = before ++ (word ++ after)) :
    ∃ front rest, source = front ++ (word ++ rest) ∧ byteCount front = byteCount before := by
  obtain ⟨stretches, hLayout, rfl⟩ := exists_layout source
  exact exists_word_of_cleanedOf hNil hWord (hLayout.text_blankFrom.symm.trans h)

/-- A statement begins at its offset, also with what is trimmed off. -/
theorem exists_back_of_trim (h : Undivided body) : ∃ back, body = trim body ++ back := by
  obtain ⟨d, hHead, hVisible⟩ := h.head
  have hStart : trimStart body = body := by
    refine trimStart_eq_self fun c hc => ?_
    cases hc.symm.trans hHead
    exact hVisible
  obtain ⟨back, hBack, -⟩ := exists_trimEnd body
  exact ⟨back, by rwa [trim, hStart]⟩

/-- Where a declaration begins, its first keyword stands in the source.
Comments in front of it were blanked and do not belong to it. -/
theorem exists_export_of_mem_statements {found : List Statement} {statement : Statement}
    (h : statements source = .ok found) (hMem : statement ∈ found)
    (hDeclaration : statement.isDeclaration) :
    ∃ front rest, source = front ++ ("export".toList ++ rest) ∧
      statement.offset = byteCount front := by
  obtain ⟨front, body, back, hCleaned, hOffset, hText, hBody, -⟩ :=
    exists_body_of_mem_statements h hMem
  obtain ⟨text, hKeywords⟩ := Option.isSome_iff_exists.mp hDeclaration
  obtain ⟨later, hExport, -⟩ := Option.bind_eq_some_iff.mp hKeywords
  obtain ⟨c, tail, hWord, -⟩ := afterWord?_eq_some_iff.mp hExport
  obtain ⟨trimmed, hTrim⟩ := exists_back_of_trim hBody
  have hFound : (blankComments source).text =
      front ++ ("export".toList ++ (c :: tail ++ trimmed ++ back)) := by
    rw [hCleaned, hTrim, ← hText, hWord]
    simp
  have hVisible : ∀ c ∈ "export".toList, isBlank c = false := by
    simpa using (by decide : "export".toList.all (!isBlank ·) = true)
  obtain ⟨place, rest, hSource, hPlace⟩ := exists_word_of_blankComments (by decide) hVisible hFound
  exact ⟨place, rest, hSource, hOffset.trans hPlace.symm⟩

end Declaration

namespace Bracket

/-- Brackets and quotes. -/
def isDelimiter (c : Char) : Bool :=
  isQuote c || (opening? c).isSome || (closing? c).isSome

variable {text : List Char} {c : Char} {offset : Nat}

theorem isBlank_of_isDelimiter (h : isDelimiter c = true) : isBlank c = false := by
  rw [Bool.eq_false_iff]
  intro hBlank
  obtain ⟨hOpening, hClosing, hQuote, -⟩ := isPlain_iff.mp (isPlain_of_isBlank hBlank)
  simp [isDelimiter, hOpening, hClosing, hQuote] at h

/-- A text is at fault at a bracket or quote. -/
theorem FaultAt.exists_delimiter (h : FaultAt text offset) :
    ∃ front c rest, text = front ++ c :: rest ∧ offset = byteCount front ∧
      isDelimiter c = true := by
  cases h with
  | literal hOpen =>
      obtain ⟨word, quote, rest, hText, -, hQuote, -⟩ := hOpen
      exact ⟨_, quote, rest, hText, rfl, by simp [isDelimiter, hQuote]⟩
  | closer hText hCloser => exact ⟨_, _, _, hText, rfl, by simp [isDelimiter, hCloser]⟩
  | opener hText hOpener => exact ⟨_, _, _, hText, rfl, by simp [isDelimiter, hOpener]⟩

end Bracket

namespace Declaration

variable {source : List Char} {fault : Bracket.Fault}

/-- Where the statements of a source cannot be told apart, the source has a
bracket or quote. -/
theorem exists_delimiter_of_statements (h : statements source = .error fault) :
    ∃ front c rest, source = front ++ c :: rest ∧ fault.offset = byteCount front ∧
      isDelimiter c = true := by
  have hSpans : spans (blankComments source).text = .error fault := by
    rcases Outcomes.bind_error h with hSpans | ⟨found, -, hNone⟩
    · exact hSpans
    · cases hNone
  have hCheck : check (blankComments source).text = .error fault := by
    rw [← map_spans, hSpans]
    rfl
  obtain ⟨before, c, after, hCleaned, hOffset, hDelimiter⟩ :=
    (faultAt_of_check hCheck).exists_delimiter
  obtain ⟨front, rest, hSource, hFront⟩ := exists_word_of_blankComments
    (List.cons_ne_nil c []) (by simpa using isBlank_of_isDelimiter hDelimiter) hCleaned
  exact ⟨front, c, rest, hSource, hOffset.trans hFront.symm, hDelimiter⟩

end Declaration

open Declaration

/-! ### Diagnostics -/

/-- What the text behind a diagnostic of this kind begins with. -/
def Diagnostic.Kind.Marks : Diagnostic.Kind → List Char → Prop
  | .malformedSignature _, rest | .duplicateSymbol _, rest => "export".toList <+: rest
  | .unbalancedBrackets _, rest => ∃ c, rest.head? = some c ∧ isDelimiter c = true

/-- The diagnostic is placed between two parts of its source, before what it
is about. -/
structure Diagnostic.PointsAt (d : Diagnostic) (front rest : List Char) : Prop where
  offset : d.offset = byteCount front
  line : d.line = front.count '\n' + 1
  cause : d.kind.Marks rest

/-- What is placed at an offset of the source points there, with the lines
counted up to it. -/
theorem pointsAt_place (path : String) {front rest : List Char} {kind : Diagnostic.Kind}
    (h : kind.Marks rest) :
    (Diagnostic.place path (front ++ rest) (byteCount front) kind).PointsAt front rest := by
  have hMin : min (byteCount front) (byteCount (front ++ rest)) = byteCount front := by
    rw [byteCount_append]
    omega
  refine ⟨hMin, ?_, h⟩
  show lineAt (min (byteCount front) (byteCount (front ++ rest))) (front ++ rest) = _
  rw [hMin, lineAt_byteCount]

/-- Whatever a diagnostic marks has a character, so that it never points
behind the end. -/
theorem Diagnostic.Kind.Marks.ne_nil {kind : Diagnostic.Kind} {rest : List Char}
    (h : kind.Marks rest) : rest ≠ [] := by
  rintro rfl
  cases kind with
  | malformedSignature => simp [Marks] at h
  | duplicateSymbol => simp [Marks] at h
  | unbalancedBrackets => simp [Marks] at h

/-- A complaint about a statement marks the keyword that the statement
begins with. -/
theorem Contribution.marks_of_complaint? {added : Contribution} {kind : Diagnostic.Kind}
    {rest : List Char} (h : added.complaint? = some kind) (hRest : "export".toList <+: rest) :
    kind.Marks rest := by
  cases added with
  | function => cases h
  | repeated =>
      cases h
      exact hRest
  | malformed =>
      cases h
      exact hRest

/-- A complaint about a declaration is placed before its first keyword,
where a reader will look for it. -/
theorem exists_declaration_of_mem_complaintsOf {path : String} {source : List Char}
    {earlier found : List Statement} {account : List (Statement × Contribution)} {d : Diagnostic}
    (hAccount : Accounts earlier found account) (h : d ∈ complaintsOf path source account) :
    ∃ statement ∈ found, statement.isDeclaration ∧ ∃ added : Contribution, ∃ kind,
      added.complaint? = some kind ∧ d = .place path source statement.offset kind := by
  obtain ⟨⟨statement, added⟩, hEntry, hPlaced⟩ := List.mem_filterMap.mp h
  obtain ⟨kind, hKind, rfl⟩ := Option.map_eq_some_iff.mp hPlaced
  have hMem : statement ∈ found.filter (·.isDeclaration) := by
    rw [← hAccount.declarations]
    exact List.mem_map_of_mem hEntry
  obtain ⟨hFound, hDeclaration⟩ := List.mem_filter.mp hMem
  exact ⟨statement, hFound, hDeclaration, added, kind, hKind, rfl⟩

/-- Every diagnostic on a module stands within its source, at the character
it is about. -/
theorem pointsAt_of_mem_diagnostics {path source : String} {d : Diagnostic}
    (h : d ∈ (readModule path source).diagnostics) :
    d.offset < byteCount source.toList ∧
      ∃ front rest, source.toList = front ++ rest ∧ d.PointsAt front rest := by
  have hPlaced : ∃ front rest, source.toList = front ++ rest ∧ d.PointsAt front rest := by
    cases hFound : statements source.toList with
    | error fault =>
        rw [readModule, hFound] at h
        obtain rfl := List.mem_singleton.mp h
        obtain ⟨front, c, rest, hSource, hOffset, hDelimiter⟩ :=
          exists_delimiter_of_statements hFound
        rw [hSource, hOffset]
        exact ⟨front, c :: rest, rfl, pointsAt_place path ⟨c, rfl, hDelimiter⟩⟩
    | ok found =>
        obtain ⟨account, hAccount, hRead⟩ := exists_account takes_nil found
        rw [readModule_of_statements path hFound, hRead] at h
        obtain ⟨statement, hMem, hDeclaration, added, kind, hKind, rfl⟩ :=
          exists_declaration_of_mem_complaintsOf hAccount h
        obtain ⟨front, rest, hSource, hOffset⟩ :=
          exists_export_of_mem_statements hFound hMem hDeclaration
        rw [hSource, hOffset]
        exact ⟨front, _, rfl, pointsAt_place path
          (Contribution.marks_of_complaint? hKind (List.prefix_append _ rest))⟩
  obtain ⟨front, rest, hSource, hPoints⟩ := hPlaced
  refine ⟨?_, front, rest, hSource, hPoints⟩
  have hPositive := byteCount_pos hPoints.cause.ne_nil
  rw [hSource, byteCount_append, hPoints.offset]
  omega

/-- A function without a name behind a comment and a newline. -/
theorem pointsAt_of_missing_name :
    let source := "/* é */\nexport function (): void;"
    let d : Diagnostic := ⟨"m.d.ts", 2, 9, .malformedSignature "missing function name"⟩
    d ∈ (readModule "m.d.ts" source).diagnostics ∧ d.offset < byteCount source.toList ∧
      ∃ front rest, source.toList = front ++ rest ∧ d.PointsAt front rest := by
  intro source d
  have hRead : d ∈ (readModule "m.d.ts" source).diagnostics := by decide +kernel
  exact ⟨hRead, pointsAt_of_mem_diagnostics hRead⟩

end ScriptBindings
