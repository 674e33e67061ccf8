import ScriptBindings.Proofs.Declaration.CommentTransparency
import ScriptBindings.Proofs.Declaration.Partition

/-! Which doc comment a statement has. It is the last one between the
statement and what ends the statement before it, if there is any. Otherwise
it is the one that touches the `;` of the statement before: the span of that
statement stops in front of the `;`, and the comment stands where the span
stops. -/
namespace ScriptBindings.Declaration

open Text Outcomes ScriptBindings.Bracket

/-- A doc comment that is closed, with the offsets where it starts and
stops. -/
structure DocBlock where
  start : Nat
  stop : Nat
  body : List Char

namespace DocBlock

def text (b : DocBlock) : List Char :=
  "/**".toList ++ (b.body ++ "*/".toList)

/-- The block is one of the comments of the source. -/
def In (b : DocBlock) (source : List Char) : Prop :=
  ∃ before after, Layout (before ++ ⟨b.text, true⟩ :: after) ∧
    source = textOf (before ++ ⟨b.text, true⟩ :: after) ∧
    b.start = byteCount (textOf before) ∧ b.stop = b.start + byteCount b.text

/-- The block as a whole lies between two offsets. -/
def LiesBetween (start stop : Nat) (b : DocBlock) : Prop :=
  start ≤ b.start ∧ b.stop ≤ stop

/-- The block stops where the statement before does. -/
def Touches (previous : Option Span) (b : DocBlock) : Prop :=
  previous.map Span.stop = some b.stop

end DocBlock

/-- The summary of the last block of a source among those with a property,
if there is one. -/
inductive LastOf (source : List Char) (p : DocBlock → Prop) : Option String → Prop where
  | absent (h : ∀ b : DocBlock, b.In source → ¬p b) : LastOf source p none
  | last {b : DocBlock} (hIn : b.In source) (hHolds : p b)
      (hLast : ∀ other : DocBlock, other.In source → p other → other.stop ≤ b.stop) :
      LastOf source p (summary? b.body)

/-- Where the text behind a statement begins: behind its closing brace, or
behind the `;` that ends it. -/
def Span.behind (cleaned : List Char) (span : Span) : Nat :=
  if (slice span.stop (byteCount cleaned) cleaned).head? = some ';' then span.stop + 1
  else span.stop

/-- Where the text in front of a statement begins, given the statement
before it. -/
def gapStart (cleaned : List Char) (previous : Option Span) : Nat :=
  previous.elim 0 (Span.behind cleaned)

/-- The doc of a statement is that of the last block in between or touching
the statement before. This is the last block in between, unless there is
none and one that touches has a summary. -/
structure Attached (source : List Char) (between touching : DocBlock → Prop)
    (doc : Option String) : Prop where
  last : LastOf source (fun b => between b ∨ touching b) doc
  between_iff : LastOf source between doc ↔
    (∃ b : DocBlock, b.In source ∧ between b) ∨
      ∀ b : DocBlock, b.In source → touching b → summary? b.body = none

variable {source cleaned front back before after : List Char} {c : Char} {b : DocBlock}
  {doc : DocComment} {span : Span} {found : List Span} {offset : Nat}

/-! ### The blocks of a source are its doc comments -/

/-- Blanking replaces every character by as many bytes, so that offsets into
the cleaned text are offsets into the source. -/
theorem byteCount_cleanedOf (stretches : List Stretch) :
    byteCount (cleanedOf stretches) = byteCount (textOf stretches) := by
  rw [← length_bytes, ← length_bytes, (sameNewlines_cleanedOf stretches).length]

/-- So the cleaned text is as long as the source, and every offset means the
same in both. -/
theorem byteCount_blankComments (source : List Char) :
    byteCount (blankComments source).text = byteCount source := by
  obtain ⟨stretches, hLayout, rfl⟩ := exists_layout source
  rw [blankComments, hLayout.text_blankFrom, byteCount_cleanedOf]

/-- The comments are found in the order in which they stop. -/
theorem docsFrom_sorted (offset : Nat) (stretches : List Stretch) :
    (docsFrom offset stretches).Pairwise fun first second => first.stop < second.stop := by
  induction stretches generalizing offset with
  | nil => exact .nil
  | cons s rest ih =>
      rw [docsFrom, List.pairwise_append]
      refine ⟨?_, ih _, fun first hFirst second hSecond => ?_⟩
      · cases s.doc? offset <;> simp
      · obtain ⟨before, later, after, -, hLater⟩ := mem_docsFrom_iff.mp hSecond
        obtain ⟨hStop, -⟩ := Stretch.stop_of_doc? (Option.mem_toList.mp hFirst)
        obtain ⟨hLaterStop, hText⟩ := Stretch.stop_of_doc? hLater
        have hPositive := byteCount_pos hText
        omega

/-- So they stand in the list in the order of the source, and the last one
that fits is the latest. -/
theorem docs_sorted (source : List Char) :
    (blankComments source).docs.Pairwise fun first second => first.stop < second.stop := by
  obtain ⟨stretches, hLayout, rfl⟩ := exists_layout source
  rw [blankComments, hLayout.docs_blankFrom]
  exact docsFrom_sorted 0 stretches

namespace DocBlock

/-- A block is not empty, since it has its opener and its closer. -/
theorem In.start_lt_stop (h : b.In source) : b.start < b.stop := by
  obtain ⟨before, after, -, -, -, hStop⟩ := h
  have hPositive : 0 < byteCount b.text := byteCount_pos (List.cons_ne_nil _ _)
  omega

/-- Each closed doc comment of the source is recorded with its summary where
it stops. -/
theorem In.mem_docs (h : b.In source) :
    ⟨b.stop, summary? b.body⟩ ∈ (blankComments source).docs := by
  obtain ⟨before, after, hLayout, rfl, hStart, hStop⟩ := h
  rw [blankComments, hLayout.docs_blankFrom, mem_docsFrom_iff]
  refine ⟨before, _, after, rfl, ?_⟩
  have hText : b.text = '/' :: '*' :: ('*' :: b.body ++ ['*', '/']) := rfl
  rw [hText, Stretch.doc?_blockComment, docComment?_eq_some_iff]
  refine ⟨b.body, by simp, ?_⟩
  rw [hStop, hStart, hText, Nat.zero_add]

/-- No block reaches over a character that is not blank once comments
are. -/
theorem In.apart (h : b.In source) (hText : (blankComments source).text = before ++ c :: after)
    (hVisible : isBlank c = false) :
    b.stop ≤ byteCount before ∨ byteCount before + c.utf8Size ≤ b.start := by
  obtain ⟨first, last, hLayout, rfl, hStart, hStop⟩ := h
  have hCleaned : cleanedOf first ++ (Stretch.cleaned ⟨b.text, true⟩ ++ cleanedOf last) =
      before ++ c :: after := by
    rw [← hText, blankComments, hLayout.text_blankFrom]
    simp [cleanedOf]
  have hNot : c ∉ Stretch.cleaned ⟨b.text, true⟩ := by
    intro hMem
    rw [isBlank_of_mem_cleaned rfl hMem] at hVisible
    cases hVisible
  have hBlock : byteCount (Stretch.cleaned ⟨b.text, true⟩) = byteCount b.text :=
    Stretch.byteCount_cleaned _
  have hApart := apart_of_not_mem hCleaned hNot
  rw [byteCount_cleanedOf, hBlock] at hApart
  omega

end DocBlock

/-- Doc comments are blocks of the source. One that is open reaches to the
end. -/
theorem exists_block_of_mem_docs (h : doc ∈ (blankComments source).docs) :
    (∃ b : DocBlock, b.In source ∧ doc = ⟨b.stop, summary? b.body⟩) ∨
      doc.stop = byteCount source := by
  obtain ⟨stretches, hLayout, rfl⟩ := exists_layout source
  rw [blankComments, hLayout.docs_blankFrom, mem_docsFrom_iff] at h
  obtain ⟨before, ⟨text, isComment⟩, after, rfl, hHere⟩ := h
  obtain ⟨hStop, -⟩ := Stretch.stop_of_doc? hHere
  obtain ⟨body, -, rfl, hSummary, rfl | ⟨-, rfl⟩⟩ := hLayout.of_append.exists_body_of_doc? hHere
  · rw [Nat.zero_add] at hStop
    refine Or.inl ⟨⟨byteCount (textOf before), doc.stop, body⟩, ⟨before, after, hLayout, rfl, rfl,
      hStop⟩, ?_⟩
    rw [← hSummary]
  · refine Or.inr ?_
    rw [hStop]
    simp [textOf]

/-! ### The last of the doc comments between two offsets -/

/-- What the search for the last doc comment finds. -/
theorem docBetween_cases {docs : List DocComment} (start stop : Nat)
    (hSorted : docs.Pairwise fun first second => first.stop < second.stop) :
    ((∀ doc ∈ docs, ¬(start ≤ doc.stop ∧ doc.stop ≤ stop)) ∧ docBetween docs start stop = none) ∨
      ∃ doc ∈ docs, (start ≤ doc.stop ∧ doc.stop ≤ stop) ∧
        (∀ other ∈ docs, start ≤ other.stop ∧ other.stop ≤ stop → other.stop ≤ doc.stop) ∧
        docBetween docs start stop = doc.summary := by
  have hChosen (doc : DocComment) :
      doc ∈ docs.filter (fun doc => start ≤ doc.stop && doc.stop ≤ stop) ↔
        doc ∈ docs ∧ start ≤ doc.stop ∧ doc.stop ≤ stop := by simp
  unfold docBetween
  cases hLast : (docs.filter fun doc => start ≤ doc.stop && doc.stop ≤ stop).getLast? with
  | none =>
      rw [List.getLast?_eq_none_iff.mp hLast] at hChosen
      refine Or.inl ⟨fun doc hDoc hRange => ?_, rfl⟩
      cases (hChosen doc).mpr ⟨hDoc, hRange⟩
  | some doc =>
      obtain ⟨hDoc, hRange⟩ := (hChosen doc).mp (List.mem_of_getLast? hLast)
      refine Or.inr ⟨doc, hDoc, hRange, fun other hOther hOtherRange => ?_, rfl⟩
      obtain ⟨earlier, hEarlier⟩ := List.getLast?_eq_some_iff.mp hLast
      have hApart := hSorted.filter fun doc => start ≤ doc.stop && doc.stop ≤ stop
      have hMem := (hChosen other).mpr ⟨hOther, hOtherRange⟩
      rw [hEarlier] at hApart hMem
      rcases List.mem_append.mp hMem with hFront | hSame
      · exact Nat.le_of_lt ((List.pairwise_append.mp hApart).2.2 _ hFront _ (by simp))
      · rw [List.mem_singleton.mp hSame]

/-- Two blocks that stop together have the same summary. -/
theorem DocBlock.In.summary_eq {other : DocBlock} (h : b.In source) (hOther : other.In source)
    (hStop : b.stop = other.stop) : summary? b.body = summary? other.body := by
  have hSymm : Std.Symm fun first second : DocComment => first.stop ≠ second.stop :=
    ⟨fun _ _ => Ne.symm⟩
  have hApart : (blankComments source).docs.Pairwise fun first second => first.stop ≠ second.stop :=
    (docs_sorted source).imp Nat.ne_of_lt
  by_contra hNe
  exact hApart.forall h.mem_docs hOther.mem_docs
    (fun hSame => hNe (congrArg DocComment.summary hSame)) hStop

namespace LastOf

variable {p : DocBlock → Prop} {summary : Option String}

/-- No doc is attached if none of the blocks in question has a summary. -/
theorem eq_none (h : LastOf source p summary)
    (hNone : ∀ b : DocBlock, b.In source → p b → summary? b.body = none) : summary = none := by
  cases h with
  | absent => rfl
  | last hIn hHolds _ => exact hNone _ hIn hHolds

/-- Where there is a block with the property there is a last one, and the
doc is its summary. -/
theorem exists_last (h : LastOf source p summary) (hIn : b.In source) (hHolds : p b) :
    ∃ last : DocBlock, last.In source ∧ p last ∧ summary = summary? last.body ∧
      ∀ other : DocBlock, other.In source → p other → other.stop ≤ last.stop := by
  cases h with
  | absent hNone => exact absurd hHolds (hNone b hIn)
  | last hLastIn hLastHolds hLast => exact ⟨_, hLastIn, hLastHolds, rfl, hLast⟩

/-- A doc that is attached came from a block with the property. -/
theorem exists_of_some {text : String} (h : LastOf source p (some text)) :
    ∃ b : DocBlock, b.In source ∧ p b := by
  by_contra hNone
  push Not at hNone
  cases h.eq_none fun b hIn hHolds => absurd hHolds (hNone b hIn)

end LastOf

/-- The search finds the last block among those that stop between the two
offsets. -/
theorem lastOf_docBetween {p : DocBlock → Prop} {start stop : Nat} (hStop : stop < byteCount source)
    (hRange : ∀ b : DocBlock, b.In source → ((start ≤ b.stop ∧ b.stop ≤ stop) ↔ p b)) :
    LastOf source p (docBetween (blankComments source).docs start stop) := by
  rcases docBetween_cases start stop (docs_sorted source) with
    ⟨hNone, hDoc⟩ | ⟨doc, hMem, hInside, hLater, hDoc⟩
  · rw [hDoc]
    exact .absent fun b hIn hHolds => hNone _ hIn.mem_docs ((hRange b hIn).mpr hHolds)
  · rcases exists_block_of_mem_docs hMem with ⟨b, hIn, rfl⟩ | hOpen
    · rw [hDoc]
      exact .last hIn ((hRange b hIn).mp hInside) fun other hOther hHolds =>
        hLater _ hOther.mem_docs ((hRange other hOther).mpr hHolds)
    · omega

/-- Blocks in between are behind those that touch, which all stop
together. -/
theorem attached_of_lastOf {between touching : DocBlock → Prop} {summary : Option String}
    (h : LastOf source (fun b => between b ∨ touching b) summary)
    (hBehind : ∀ b other : DocBlock, b.In source → between b → touching other →
      other.stop < b.stop)
    (hSame : ∀ b other : DocBlock, touching b → touching other → b.stop = other.stop) :
    Attached source between touching summary where
  last := h
  between_iff := by
    by_cases hSome : ∃ b : DocBlock, b.In source ∧ between b
    · refine iff_of_true ?_ (Or.inl hSome)
      obtain ⟨b, hIn, hBetween⟩ := hSome
      obtain ⟨last, hLastIn, hLastHolds, rfl, hLast⟩ := h.exists_last hIn (Or.inl hBetween)
      rcases hLastHolds with hLastBetween | hTouching
      · exact .last hLastIn hLastBetween fun other hOther hHolds =>
          hLast other hOther (Or.inl hHolds)
      · have hBefore := hBehind b last hIn hBetween hTouching
        have hAfter := hLast b hIn (Or.inl hBetween)
        omega
    · push Not at hSome
      constructor
      · intro hBetween
        have hNone := hBetween.eq_none fun b hIn hHolds => absurd hHolds (hSome b hIn)
        refine Or.inr fun b hIn hTouching => ?_
        obtain ⟨last, hLastIn, hLastHolds, hSummary, -⟩ := h.exists_last hIn (Or.inr hTouching)
        have hLastTouching := hLastHolds.resolve_left (hSome last hLastIn)
        rw [hIn.summary_eq hLastIn (hSame b last hTouching hLastTouching), ← hSummary, hNone]
      · rintro (⟨b, hIn, hBetween⟩ | hNone)
        · exact absurd hBetween (hSome b hIn)
        · have hNothing := h.eq_none fun b hIn hHolds =>
            hNone b hIn (hHolds.resolve_left (hSome b hIn))
          rw [hNothing]
          exact .absent hSome

/-! ### What ends the statement before -/

/-- The semicolon that ends a statement is not part of its text. Whether
there is one is seen from the character behind. -/
theorem Span.behind_eq (hText : cleaned = front ++ back) (hStop : span.stop = byteCount front) :
    span.behind cleaned = if back.head? = some ';' then span.stop + 1 else span.stop := by
  have hSlice := slice_append front back []
  rw [List.append_nil, ← byteCount_append] at hSlice
  rw [Span.behind, hText, hStop, hSlice]

/-- What lies behind a statement begins no sooner than it stops. -/
theorem Span.stop_le_behind (cleaned : List Char) (span : Span) :
    span.stop ≤ span.behind cleaned := by
  unfold Span.behind
  split <;> omega

/-- A block that does not stop within a statement stops where the statement
does or begins behind what ends it. -/
theorem Divided.block_apart (h : Divided 0 (blankComments source).text found) (hMem : span ∈ found)
    (hMore : span.stop < byteCount source) (hIn : b.In source) :
    b.stop < span.stop ∨ b.stop = span.stop ∨
      span.behind (blankComments source).text ≤ b.start := by
  obtain ⟨front, body, back, hText, rfl, -, -, hEnd⟩ := h.exists_body hMem
  rw [← List.append_assoc] at hText
  dsimp only at hMore ⊢
  rw [Nat.zero_add, ← byteCount_append] at hMore ⊢
  rw [Span.behind_eq hText rfl]
  rcases hEnd with rfl | hSemicolon | ⟨hBlock, c, hHead, hStops⟩
  · -- nothing would stand behind the statement
    have hCount := byteCount_blankComments source
    rw [hText, List.append_nil] at hCount
    omega
  · obtain ⟨rest, rfl⟩ := List.head?_eq_some_iff.mp hSemicolon
    have hApart := hIn.apart hText rfl
    have hSize : ';'.utf8Size = 1 := rfl
    simp only [List.head?_cons, if_true]
    omega
  · obtain ⟨inner, rfl⟩ := List.getLast?_eq_some_iff.mp hBlock.last
    have hBrace : (blankComments source).text = front ++ inner ++ '\x7d' :: back := by
      rw [hText]
      simp
    have hOther : back.head? ≠ some ';' := by
      intro hSemicolon
      rw [trimStart_eq_self (by rw [hSemicolon]; rintro b ⟨⟩; rfl), hSemicolon] at hHead
      cases hHead
      cases hStops
    have hApart := hIn.apart hBrace rfl
    have hSize : '\x7d'.utf8Size = 1 := rfl
    simp only [hOther, if_false]
    simp only [byteCount_append, byteCount_cons, byteCount_nil] at hApart ⊢
    omega

/-! ### Statements and their docs -/

/-- What the search for a doc finds, given the statement before. The search
goes by offsets, and the blocks are those of the source. -/
theorem Divided.attached {previous : Option Span} {stop : Nat}
    (h : Divided 0 (blankComments source).text found) (hStop : stop < byteCount source)
    (hPrevious : ∀ span ∈ previous, span ∈ found ∧ span.stop ≤ stop) :
    Attached source (DocBlock.LiesBetween (gapStart (blankComments source).text previous) stop)
      (DocBlock.Touches previous)
      (docBetween (blankComments source).docs ((previous.map Span.stop).getD 0) stop) := by
  refine attached_of_lastOf (lastOf_docBetween hStop fun b hIn => ?_)
    (fun b other hIn hBetween hTouches => ?_) fun b other hTouches hOther =>
      Option.some.inj (hTouches.symm.trans hOther)
  · cases previous with
    | none => simp [DocBlock.LiesBetween, DocBlock.Touches, gapStart]
    | some span =>
        obtain ⟨hMem, hBefore⟩ := hPrevious span rfl
        have hApart := h.block_apart hMem (by omega) hIn
        have hBehind := span.stop_le_behind (blankComments source).text
        have hStart := hIn.start_lt_stop
        simp only [DocBlock.LiesBetween, DocBlock.Touches, gapStart, Option.map_some,
          Option.getD_some, Option.elim_some, Option.some.injEq]
        omega
  · obtain ⟨span, rfl, hSame⟩ := Option.map_eq_some_iff.mp hTouches
    have hBehind : span.behind (blankComments source).text ≤ b.start := hBetween.1
    have hStopBehind := span.stop_le_behind (blankComments source).text
    have hStart := hIn.start_lt_stop
    omega

/-- The doc of a statement is looked for between where the statement before
stops and where it begins itself. -/
theorem doc_statementsFrom {blanked : Blanked} {previous : Nat} {before after : List Span}
    {statement : Statement}
    (h : (statementsFrom blanked previous (before ++ span :: after))[before.length]? =
      some statement) :
    statement.doc =
      docBetween blanked.docs ((before.getLast?.map Span.stop).getD previous) span.start := by
  induction before generalizing previous with
  | nil =>
      cases h
      rfl
  | cons first before ih =>
      have hLater := ih h
      rw [hLater, List.getLast?_cons]
      cases before.getLast? <;> rfl

/-- Every statement has the doc of the last block that lies between it and
what ends the statement before, or that touches that statement. -/
theorem attached_of_statements {read : List Statement} (h : statements source = .ok read) :
    ∃ extents, spans (blankComments source).text = .ok extents ∧
      List.Forall₂ (Statement.Reads (blankComments source).text) read extents ∧
      ∀ before span after statement, extents = before ++ span :: after →
        read[before.length]? = some statement →
        Attached source
          (DocBlock.LiesBetween (gapStart (blankComments source).text before.getLast?) span.start)
          (DocBlock.Touches before.getLast?) statement.doc := by
  obtain ⟨extents, hSpans, h⟩ := bind_ok h
  cases h
  refine ⟨extents, hSpans, reads_statementsFrom _ 0 extents, ?_⟩
  rintro before span after statement rfl hStatement
  have hDivided := spans_eq_ok_iff.mp hSpans
  have hMem : span ∈ before ++ span :: after := by simp
  have hStop : span.start < byteCount source := by
    have hBounds := hDivided.bounds hMem
    rw [byteCount_blankComments] at hBounds
    omega
  rw [doc_statementsFrom hStatement]
  refine hDivided.attached hStop fun previous hPrevious => ?_
  have hEarlier := List.mem_of_getLast? hPrevious
  exact ⟨List.mem_append_left _ hEarlier,
    (List.pairwise_append.mp hDivided.ordered).2.2 _ hEarlier _ List.mem_cons_self⟩

/-- The comment in front of the second declaration is its doc. -/
theorem attached_of_statements_gap :
    let source := "export function f(): void; /** a */ export function g();".toList
    statements source = .ok [⟨0, "export function f(): void".toList, none⟩,
        ⟨36, "export function g()".toList, some "a"⟩] ∧
      Attached source (DocBlock.LiesBetween 26 36) (DocBlock.Touches (some ⟨0, 25⟩))
        (some "a") := by
  intro source
  have hRead : statements source = .ok [⟨0, "export function f(): void".toList, none⟩,
      ⟨36, "export function g()".toList, some "a"⟩] := by decide +kernel
  obtain ⟨extents, hSpans, -, hAttached⟩ := attached_of_statements hRead
  have hFound : spans (blankComments source).text = .ok [⟨0, 25⟩, ⟨36, 55⟩] := by decide +kernel
  rw [hFound] at hSpans
  cases hSpans
  have hGap : gapStart (blankComments source).text (some ⟨0, 25⟩) = 26 := by decide +kernel
  have hSecond := hAttached [⟨0, 25⟩] ⟨36, 55⟩ [] _ rfl rfl
  rw [List.getLast?_singleton, hGap] at hSecond
  exact ⟨hRead, hSecond⟩

/-- The comment in the first statement touches its `;` and documents the
second. -/
theorem not_lastOf_between :
    ¬∀ (source : List Char) (read : List Statement) (extents before after : List Span)
        (span : Span) (statement : Statement),
      statements source = .ok read → spans (blankComments source).text = .ok extents →
      extents = before ++ span :: after → read[before.length]? = some statement →
      LastOf source
        (DocBlock.LiesBetween (gapStart (blankComments source).text before.getLast?) span.start)
        statement.doc := by
  intro h
  let source := "export function f(): void/** a */;export function g();".toList
  have hRead : statements source = .ok [⟨0, "export function f(): void".toList, none⟩,
      ⟨34, "export function g()".toList, some "a"⟩] := by decide +kernel
  have hFound : spans (blankComments source).text = .ok [⟨0, 33⟩, ⟨34, 53⟩] := by decide +kernel
  have hGap : gapStart (blankComments source).text (some ⟨0, 33⟩) = 34 := by decide +kernel
  have hLast := h source _ _ [⟨0, 33⟩] [] ⟨34, 53⟩ _ hRead hFound rfl rfl
  rw [List.getLast?_singleton, hGap] at hLast
  obtain ⟨b, hIn, hStart, hStop⟩ := hLast.exists_of_some
  have hProper := hIn.start_lt_stop
  dsimp only at hStop
  omega

end ScriptBindings.Declaration
