import ScriptBindings.Proofs.Bracket.Joining
import ScriptBindings.Proofs.Declaration.CommentLayout
import ScriptBindings.Proofs.Declaration.Reading
import ScriptBindings.Proofs.Text.HostText

/-! Where the summaries of functions come from. Each is joined of lines of a
doc comment in the source. The lines are trimmed and end at newlines only,
so that a summary has none but may have other ends of lines. -/
namespace ScriptBindings

open Text ScriptBindings.Bracket

namespace Declaration

variable {body line source : List Char} {offset : Nat}

/-! ### Lines of a summary -/

theorem dropWhile_subset (p : Char → Bool) (text : List Char) : text.dropWhile p ⊆ text :=
  (List.dropWhile_sublist p).subset

theorem trim_subset (text : List Char) : trim text ⊆ text := by
  intro c hc
  have hStart := dropWhile_subset isBlank _ (List.mem_reverse.mp hc)
  exact dropWhile_subset isBlank _ (List.mem_reverse.mp hStart)

/-- A line of a summary, and where its characters are from. -/
theorem line_of_mem_summaryLines (h : line ∈ summaryLines body) :
    line ≠ [] ∧ Trimmed line ∧ ∃ whole ∈ lines body, line ⊆ whole := by
  obtain ⟨hTaken, hNonempty⟩ := List.mem_filter.mp h
  obtain ⟨whole, hWhole, rfl⟩ := List.mem_map.mp ((List.takeWhile_sublist _).subset hTaken)
  refine ⟨by simpa using hNonempty, trimmed_trim _, whole, hWhole, ?_⟩
  exact fun c hc => trim_subset whole (dropWhile_subset _ _ (trim_subset _ hc))

/-- The lines of a comment are cut at newlines, so that none is left in
them. -/
theorem not_newline_mem_summaryLines (h : line ∈ summaryLines body) : '\n' ∉ line := by
  obtain ⟨-, -, whole, hWhole, hSubset⟩ := line_of_mem_summaryLines h
  intro hMem
  have hNot := HostText.not_of_mem_splitOnP (p := (· == '\n')) hWhole '\n' (hSubset hMem)
  cases hNot

/-- The summary is the lines that are not empty, joined by blanks, and there
is none without such a line. -/
theorem summary?_eq_some_iff {doc : String} :
    summary? body = some doc ↔
      summaryLines body ≠ [] ∧ doc = String.ofList ([' '].intercalate (summaryLines body)) := by
  unfold summary?
  split
  · next hNone => exact ⟨nofun, fun h => absurd hNone h.1⟩
  · next hSome =>
      exact ⟨fun h => ⟨hSome, (Option.some.inj h).symm⟩, fun h => congrArg some h.2.symm⟩

/-- The text of a summary. -/
structure IsSummary (body : List Char) (doc : String) : Prop where
  joined : doc.toList = [' '].intercalate (summaryLines body)
  nonempty : doc ≠ ""
  trimmed : Trimmed doc.toList
  newline : '\n' ∉ doc.toList

theorem isSummary_of_eq_some {doc : String} (h : summary? body = some doc) :
    IsSummary body doc := by
  obtain ⟨hLines, rfl⟩ := summary?_eq_some_iff.mp h
  have hPieces : ∀ line ∈ summaryLines body, Trimmed line ∧ line ≠ [] := fun line hLine =>
    have hProper := line_of_mem_summaryLines hLine
    ⟨hProper.2.1, hProper.1⟩
  have hJoined : Trimmed ([' '].intercalate (summaryLines body)) ∧
      [' '].intercalate (summaryLines body) ≠ [] := Trimmed.intercalate hPieces hLines
  obtain ⟨hTrimmed, hNil⟩ := hJoined
  refine ⟨String.toList_ofList, ?_, ?_, ?_⟩
  · rwa [Ne, ← String.toList_inj, String.toList_ofList]
  · rwa [String.toList_ofList]
  · rw [String.toList_ofList]
    intro hMem
    rcases mem_intercalate hMem with hJoint | ⟨line, hLine, hChar⟩
    · cases List.mem_singleton.mp hJoint
    · exact not_newline_mem_summaryLines hLine hChar

/-! ### Doc comments of a source -/

/-- A source with a doc comment. Only at the end of the source it may be
left open. -/
def HasDocComment (source body : List Char) : Prop :=
  ∃ behind, "/**".toList ++ (body ++ behind) <:+ source ∧ ¬['*', '/'] <:+: '*' :: body ∧
    (behind = [] ∨ ['*', '/'] <+: behind)

/-- The doc comments that are found are comments of the source. -/
theorem Layout.hasDocComment {stretches : List Stretch} (h : Layout stretches) {doc : DocComment}
    (hDoc : doc ∈ docsFrom offset stretches) :
    ∃ body, HasDocComment (textOf stretches) body ∧ doc.summary = summary? body := by
  obtain ⟨before, s, after, rfl, hHere⟩ := mem_docsFrom_iff.mp hDoc
  obtain ⟨body, hOpen, -, hSummary, hText⟩ := h.of_append.exists_body_of_doc? hHere
  have hSuffix : s.text ++ textOf after <:+ textOf (before ++ s :: after) :=
    ⟨textOf before, by simp [textOf]⟩
  rcases hText with hClosed | ⟨hWhole, rfl⟩
  · rw [hClosed, List.append_assoc, List.append_assoc] at hSuffix
    exact ⟨body, ⟨_, hSuffix, hOpen, Or.inr (List.prefix_append _ _)⟩, hSummary⟩
  · rw [hWhole, textOf_nil, List.append_assoc] at hSuffix
    exact ⟨body, ⟨[], hSuffix, hOpen, Or.inl rfl⟩, hSummary⟩

/-- Every doc that was recorded comes from a comment of the source. -/
theorem hasDocComment_of_mem_blankComments {doc : DocComment}
    (h : doc ∈ (blankComments source).docs) :
    ∃ body, HasDocComment source body ∧ doc.summary = summary? body := by
  obtain ⟨stretches, hLayout, rfl⟩ := exists_layout source
  rw [blankComments, hLayout.docs_blankFrom] at h
  exact hLayout.hasDocComment h

/-! ### Summaries of statements and functions -/

theorem mem_docs_of_docBetween {docs : List DocComment} {start stop : Nat} {summary : String}
    (h : docBetween docs start stop = some summary) : ∃ doc ∈ docs, doc.summary = some summary := by
  obtain ⟨doc, hLast, hSummary⟩ := Option.bind_eq_some_iff.mp h
  exact ⟨doc, List.mem_of_mem_filter (List.mem_of_getLast? hLast), hSummary⟩

theorem mem_docs_of_mem_statementsFrom {blanked : Blanked} {previous : Nat} {found : List Span}
    {statement : Statement} {summary : String}
    (h : statement ∈ statementsFrom blanked previous found) (hDoc : statement.doc = some summary) :
    ∃ doc ∈ blanked.docs, doc.summary = some summary := by
  induction found generalizing previous with
  | nil => cases h
  | cons span rest ih =>
      rw [statementsFrom] at h
      rcases List.mem_cons.mp h with rfl | hRest
      · exact mem_docs_of_docBetween hDoc
      · exact ih hRest

theorem doc_of_ofStatement {statement : Statement} {f : Signature}
    (h : Finding.ofStatement statement = .function f) : f.doc = statement.doc := by
  unfold Finding.ofStatement at h
  split at h
  · cases h
  · split at h
    · cases h
      rfl
    · cases h

end Declaration

open Declaration

/-- The summary of a function is that of a doc comment in the source of its
module. -/
theorem isSummary_of_readModule {path source : String} {m : ScriptModule} {f : Signature}
    {doc : String} (h : (readModule path source).module? = some m) (hf : f ∈ m.functions)
    (hDoc : f.doc = some doc) :
    ∃ body, HasDocComment source.toList body ∧ IsSummary body doc := by
  obtain ⟨found, hFound, rfl⟩ := exists_statements_of_readModule h
  obtain ⟨statement, hStatement, hFinding⟩ := exists_finding_of_mem_readStatements hf
  obtain ⟨spans, -, hSpans⟩ := Outcomes.bind_ok hFound
  cases hSpans
  rw [doc_of_ofStatement hFinding] at hDoc
  obtain ⟨comment, hComment, hSummary⟩ := mem_docs_of_mem_statementsFrom hStatement hDoc
  obtain ⟨body, hBody, hSame⟩ := hasDocComment_of_mem_blankComments hComment
  exact ⟨body, hBody, isSummary_of_eq_some (hSame.symm.trans hSummary)⟩

end ScriptBindings
