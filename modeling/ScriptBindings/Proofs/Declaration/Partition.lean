import Mathlib.Data.List.Pairwise
import ScriptBindings.Proofs.Declaration.Division
import ScriptBindings.Proofs.Text.Offsets

/-! Statements part their source. Their extents follow one another without
overlap, and every character that is not blank lies in exactly one of them,
unless it is a `;` outside all brackets. -/
namespace ScriptBindings.Declaration

open Text Outcomes ScriptBindings.Bracket

variable {text body rest before after source : List Char} {found : List Span} {span : Span}
  {offset : Nat} {c : Char}

/-- The character at that offset belongs to the span. -/
def Span.Holds (span : Span) (offset : Nat) : Prop :=
  span.start ≤ offset ∧ offset < span.stop

/-- The span begins at a character of the text that is not blank and stands
outside all brackets and literals. -/
def Span.BeginsIn (span : Span) (text : List Char) : Prop :=
  ∃ before c after, text = before ++ c :: after ∧ span.start = byteCount before ∧
    Balanced before ∧ isBlank c = false

/-- The extents of statements in a text. A `;` outside all brackets belongs
to none. -/
structure Parts (text : List Char) (found : List Span) : Prop where
  nonempty : ∀ span ∈ found, span.start < span.stop
  within : ∀ span ∈ found, span.stop ≤ byteCount text
  ordered : found.Pairwise fun first second => first.stop ≤ second.start
  begins : ∀ span ∈ found, span.BeginsIn text
  covered : ∀ before c after, text = before ++ c :: after → isBlank c = false →
    ¬(c = ';' ∧ Balanced before) → ∃! span, span ∈ found ∧ span.Holds (byteCount before)
  excluded : ∀ before after, text = before ++ ';' :: after → Balanced before →
    ∀ span ∈ found, ¬span.Holds (byteCount before)

namespace Divided

theorem bounds (h : Divided offset text found) (hMem : span ∈ found) :
    offset ≤ span.start ∧ span.start < span.stop ∧ span.stop ≤ offset + byteCount text := by
  induction h with
  | nil => cases hMem
  | gap _ _ ih =>
      have hLater := ih hMem
      rw [byteCount_cons]
      omega
  | @statement _ body _ _ hBody _ _ _ ih =>
      have hPositive : 0 < byteCount body := byteCount_pos hBody.ne_nil
      rw [byteCount_append]
      rcases List.mem_cons.mp hMem with rfl | hRest
      · dsimp only
        omega
      · have hLater := ih hRest
        omega

theorem ordered (h : Divided offset text found) :
    found.Pairwise fun first second => first.stop ≤ second.start := by
  induction h with
  | nil => exact .nil
  | gap _ _ ih => exact ih
  | statement _ _ _ later ih => exact .cons (fun span hMem => (later.bounds hMem).1) ih

/-- A statement begins with a visible character, and the text in front of it
has no open bracket. -/
theorem begins (h : Divided offset text found) (hMem : span ∈ found) :
    ∃ before c after, text = before ++ c :: after ∧ span.start = offset + byteCount before ∧
      Balanced before ∧ isBlank c = false := by
  induction h with
  | nil => cases hMem
  | @gap offset c _ _ hGap _ ih =>
      obtain ⟨before, d, after, rfl, hStart, hBefore, hVisible⟩ := ih hMem
      have hPlain : ∀ d ∈ [c], isPlain d = true :=
        List.forall_mem_singleton.mpr (isPlain_of_isGap hGap)
      exact ⟨c :: before, d, after, rfl, by rw [hStart, byteCount_cons, Nat.add_assoc],
        (Balanced.plain_append_iff hPlain).mpr hBefore, hVisible⟩
  | @statement offset body rest found hBody hBalanced hEnd _ ih =>
      rcases List.mem_cons.mp hMem with rfl | hRest
      · obtain ⟨c, tail, rfl⟩ := List.exists_cons_of_ne_nil hBody.ne_nil
        obtain ⟨d, hHead, hVisible⟩ := hBody.head
        cases hHead
        exact ⟨[], c, tail ++ rest, rfl, rfl, .nil, hVisible⟩
      · obtain ⟨before, d, after, rfl, hStart, hBefore, hVisible⟩ := ih hRest
        exact ⟨body ++ before, d, after, (List.append_assoc _ _ _).symm,
          by rw [hStart, byteCount_append, Nat.add_assoc],
          (hEnd.append_iff hBalanced).mpr hBefore, hVisible⟩

/-- What is not blank belongs to a statement, unless it ends one. -/
theorem holds_iff (h : Divided offset text found) (hText : text = before ++ c :: after)
    (hVisible : isBlank c = false) :
    (∃ span ∈ found, span.Holds (offset + byteCount before)) ↔ ¬(c = ';' ∧ Balanced before) := by
  induction h generalizing before with
  | nil => cases before <;> cases hText
  | @gap offset d _ _ hGap later ih =>
      cases before with
      | nil =>
          cases hText
          refine iff_of_false ?_ (not_not_intro ⟨eq_semicolon_of_isGap hGap hVisible, .nil⟩)
          rintro ⟨span, hMem, hStart, -⟩
          have hBound := (later.bounds hMem).1
          have hSize := c.utf8Size_pos
          rw [byteCount_nil] at hStart
          omega
      | cons d tail =>
          cases hText
          have hBalanced : Balanced (d :: tail) ↔ Balanced tail :=
            Balanced.plain_append_iff (List.forall_mem_singleton.mpr (isPlain_of_isGap hGap))
          rw [byteCount_cons, ← Nat.add_assoc, hBalanced]
          exact ih rfl
  | @statement offset body rest found hBody hBalanced hEnd later ih =>
      have hBehind (more : List Char) (hRest : rest = more ++ c :: after) :
          (∃ span ∈ ⟨offset, offset + byteCount body⟩ :: found,
            span.Holds (offset + byteCount (body ++ more))) ↔
          ¬(c = ';' ∧ Balanced (body ++ more)) := by
        rw [hRest] at hEnd
        rw [hEnd.append_iff hBalanced, byteCount_append, ← Nat.add_assoc]
        have hNot : ¬Span.Holds ⟨offset, offset + byteCount body⟩
            (offset + byteCount body + byteCount more) := by
          rintro ⟨-, hStop⟩
          dsimp only at hStop
          omega
        simpa [hNot] using ih hRest
      rcases List.append_eq_append_iff.mp hText with ⟨more, rfl, hRest⟩ | ⟨more, rfl, hRest⟩
      · exact hBehind more hRest
      · cases more with
        | nil =>
            simpa only [List.append_nil] using hBehind [] hRest.symm
        | cons d more =>
            cases hRest
            refine iff_of_true ⟨_, List.mem_cons_self, ?_⟩ ?_
            · have hSize := c.utf8Size_pos
              simp only [Span.Holds, byteCount_append, byteCount_cons]
              omega
            · rintro ⟨rfl, hBefore⟩
              exact hBody.lacks before more rfl hBefore

/-- No place belongs to two of the spans. -/
theorem eq_of_holds {other : Span} {place : Nat} (h : Divided offset text found)
    (hMem : span ∈ found) (hOther : other ∈ found) (hHolds : span.Holds place)
    (hOtherHolds : other.Holds place) : span = other := by
  by_contra hNe
  have hSymm : Std.Symm fun first second : Span =>
      first.stop ≤ second.start ∨ second.stop ≤ first.start := ⟨fun _ _ => Or.symm⟩
  have hEither : found.Pairwise fun first second =>
      first.stop ≤ second.start ∨ second.stop ≤ first.start := h.ordered.imp Or.inl
  have hApart := hEither.forall hMem hOther hNe
  obtain ⟨hStart, hStop⟩ := hHolds
  obtain ⟨hOtherStart, hOtherStop⟩ := hOtherHolds
  omega

/-- The spans of a text with what lies between them make up the whole of
it. -/
theorem parts (h : Divided 0 text found) : Parts text found where
  nonempty span hMem := (h.bounds hMem).2.1
  within span hMem := by simpa using (h.bounds hMem).2.2
  ordered := h.ordered
  begins span hMem := by simpa [Span.BeginsIn] using h.begins hMem
  covered before c after hText hVisible hNot := by
    obtain ⟨span, hMem, hHolds⟩ := (h.holds_iff hText hVisible).mpr hNot
    rw [Nat.zero_add] at hHolds
    exact ⟨span, ⟨hMem, hHolds⟩, fun other ⟨hOther, hOtherHolds⟩ =>
      h.eq_of_holds hOther hMem hOtherHolds hHolds⟩
  excluded before after hText hBefore span hMem hHolds := by
    refine (h.holds_iff hText rfl).mp ⟨span, hMem, ?_⟩ ⟨rfl, hBefore⟩
    rwa [Nat.zero_add]

/-- A span reaches over a part of the text that is a statement. -/
theorem exists_body (h : Divided offset text found) (hMem : span ∈ found) :
    ∃ front body back, text = front ++ (body ++ back) ∧
      span = ⟨offset + byteCount front, offset + byteCount front + byteCount body⟩ ∧
      Undivided body ∧ Balanced body ∧ EndsBefore body back := by
  induction h with
  | nil => cases hMem
  | @gap _ c _ _ _ _ ih =>
      obtain ⟨front, body, back, rfl, rfl, hBody⟩ := ih hMem
      exact ⟨c :: front, body, back, rfl, by rw [byteCount_cons, ← Nat.add_assoc], hBody⟩
  | @statement _ statement rest _ hStatement hBalanced hEnd _ ih =>
      rcases List.mem_cons.mp hMem with rfl | hRest
      · exact ⟨[], statement, rest, rfl, rfl, hStatement, hBalanced, hEnd⟩
      · obtain ⟨front, body, back, rfl, rfl, hBody⟩ := ih hRest
        exact ⟨statement ++ front, body, back, (List.append_assoc _ _ _).symm,
          by rw [byteCount_append, ← Nat.add_assoc], hBody⟩

end Divided

/-- The statement is what the source has between the ends of the span. -/
def Statement.Reads (cleaned : List Char) (statement : Statement) (span : Span) : Prop :=
  statement.offset = span.start ∧ statement.text = trim (slice span.start span.stop cleaned)

/-- The statements are read off their spans one by one, each with the text
of its span and the doc in front of it. -/
theorem reads_statementsFrom (blanked : Blanked) (previous : Nat) (found : List Span) :
    List.Forall₂ (Statement.Reads blanked.text) (statementsFrom blanked previous found) found := by
  induction found generalizing previous with
  | nil => exact .nil
  | cons span rest ih => exact .cons ⟨rfl, rfl⟩ (ih span.stop)

/-- The statements of a source are those of a division of its cleaned
text. -/
theorem exists_divided_of_statements {read : List Statement} (h : statements source = .ok read) :
    ∃ extents, Divided 0 (blankComments source).text extents ∧
      List.Forall₂ (Statement.Reads (blankComments source).text) read extents := by
  obtain ⟨extents, hSpans, h⟩ := bind_ok h
  cases h
  exact ⟨extents, spans_eq_ok_iff.mp hSpans, reads_statementsFrom _ 0 extents⟩

/-- And a division gives statements, so that a source is divided exactly if
it has them. -/
theorem exists_statements_of_divided (h : Divided 0 (blankComments source).text found) :
    ∃ read, statements source = .ok read ∧
      List.Forall₂ (Statement.Reads (blankComments source).text) read found := by
  refine ⟨statementsFrom (blankComments source) 0 found, ?_, reads_statementsFrom _ 0 found⟩
  rw [statements, spans_eq_ok_iff.mpr h]
  rfl

/-- The text of a statement is what its span covers, without blanks at the
ends. -/
theorem exists_span_of_mem {blanked : Blanked} {previous : Nat} {ended : List Span}
    {statement : Statement} (h : statement ∈ statementsFrom blanked previous ended) :
    ∃ span ∈ ended, statement.offset = span.start ∧
      statement.text = trim (slice span.start span.stop blanked.text) := by
  induction ended generalizing previous with
  | nil => cases h
  | cons span rest ih =>
      rcases List.mem_cons.mp h with rfl | hRest
      · exact ⟨span, List.mem_cons_self, rfl, rfl⟩
      · obtain ⟨other, hOther, hSame⟩ := ih hRest
        exact ⟨other, List.mem_cons_of_mem span hOther, hSame⟩

/-- A statement that is found is a part of the source without its
comments. -/
theorem exists_body_of_mem_statements {read : List Statement} {statement : Statement}
    (h : statements source = .ok read) (hMem : statement ∈ read) :
    ∃ front body back, (blankComments source).text = front ++ (body ++ back) ∧
      statement.offset = byteCount front ∧ statement.text = trim body ∧
      Undivided body ∧ Balanced body := by
  obtain ⟨extents, hSpans, h⟩ := bind_ok h
  cases h
  obtain ⟨span, hSpan, hOffset, hText⟩ := exists_span_of_mem hMem
  obtain ⟨front, body, back, hCleaned, rfl, hBody⟩ := (spans_eq_ok_iff.mp hSpans).exists_body hSpan
  simp only [Nat.zero_add, hCleaned, slice_append] at hOffset hText
  exact ⟨front, body, back, hCleaned, hOffset, hText, hBody.1, hBody.2.1⟩

/-- The text of every statement is balanced. No later stage can therefore
meet a fault of brackets. -/
theorem balanced_of_mem_statements {read : List Statement} {statement : Statement}
    (h : statements source = .ok read) (hMem : statement ∈ read) : Balanced statement.text := by
  obtain ⟨front, body, back, -, -, hText, -, hBalanced⟩ := exists_body_of_mem_statements h hMem
  rw [hText]
  exact hBalanced.trim

/-- The statements of a source are read off extents that part it. They do
not overlap, they stand in order, and between them there is nothing but
blanks and semicolons. -/
theorem parts_of_statements {read : List Statement} (h : statements source = .ok read) :
    ∃ extents, spans (blankComments source).text = .ok extents ∧
      List.Forall₂ (Statement.Reads (blankComments source).text) read extents ∧
      Parts (blankComments source).text extents := by
  obtain ⟨extents, hDivided, hReads⟩ := exists_divided_of_statements h
  exact ⟨extents, spans_eq_ok_iff.mpr hDivided, hReads, hDivided.parts⟩

/-- The `;` in the block and in the literal belong to their statements, the
last one to none. -/
theorem parts_of_statements_block :
    Parts "interface A \x7b b; \x7d\ntype C = ';';".toList [⟨0, 18⟩, ⟨19, 31⟩] := by
  have hRead : statements "interface A \x7b b; \x7d\ntype C = ';';".toList =
      .ok [⟨0, "interface A \x7b b; \x7d".toList, none⟩, ⟨19, "type C = ';'".toList, none⟩] := by
    decide +kernel
  obtain ⟨extents, hSpans, -, hParts⟩ := parts_of_statements hRead
  have hFound : spans (blankComments "interface A \x7b b; \x7d\ntype C = ';';".toList).text =
      .ok [⟨0, 18⟩, ⟨19, 31⟩] := by decide +kernel
  rw [hFound] at hSpans
  cases hSpans
  exact hParts

end ScriptBindings.Declaration
