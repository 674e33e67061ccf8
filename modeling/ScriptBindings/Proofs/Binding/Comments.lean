import ScriptBindings.Proofs.Binding.Agreement
import ScriptBindings.Proofs.Declaration.Summaries
import ScriptBindings.Proofs.Text.Entities

/-! The summaries of functions in the interface. Each member has its comment
in front of it, and a summary stands there on one line of its own exactly if
it has no end of a line that the host knows. -/
namespace ScriptBindings

open HostText Declaration
open Method (indent)

namespace Text

/-- The entity of a character has no end of a line, nor is one of the
characters written as entities such an end. -/
theorem lineEnd_escapeXmlChar_iff (c : Char) :
    (∀ d ∈ escapeXmlChar c, isLineEnd d = false) ↔ isLineEnd c = false := by
  have hEntities : ∀ entity ∈ entities,
      (∀ d ∈ entity.2, isLineEnd d = false) ∧ isLineEnd entity.1 = false := by
    simp [entities, isLineEnd]
  rcases escapeXmlChar_cases c with hEntity | ⟨-, -, -, hEscaped⟩
  · obtain ⟨hWritten, hChar⟩ := hEntities _ hEntity
    exact iff_of_true hWritten hChar
  · rw [hEscaped]
    exact List.forall_mem_singleton

/-- Entities neither add nor take away ends of lines. So whether a comment
stays on its line can be told from the summary before it is escaped. -/
theorem lineEnd_escapeXml_iff (text : String) :
    (∀ c ∈ (escapeXml text).toList, isLineEnd c = false) ↔
      ∀ c ∈ text.toList, isLineEnd c = false := by
  rw [toList_escapeXml, List.forall_mem_flatMap]
  exact forall₂_congr fun c _ => lineEnd_escapeXmlChar_iff c

end Text

/-! ### Comments in front of members -/

/-- The lines of a doc comment whose summary is one line. -/
def commentLines (summary : String) : List (List Char) :=
  ["    /// <summary>".toList, "    /// ".toList ++ summary.toList, "    /// </summary>".toList]

/-- A comment that begins a line takes up the lines of its summary and two
more. -/
theorem lines_summaryText (front rest : List Char) (summary : String) :
    lines (front ++ '\n' :: ((Generator.summaryText indent summary).toList ++ rest)) =
      lines front ++ ("    /// <summary>".toList :: lines ("    /// ".toList ++ summary.toList) ++
        "    /// </summary>".toList :: lines rest) := by
  have hEnd : isLineEnd '\n' = true := rfl
  have hOpening : ∀ c ∈ "    /// <summary>".toList, isLineEnd c = false :=
    not_lineEnd_of_any (by decide)
  have hClosing : ∀ c ∈ "    /// </summary>".toList, isLineEnd c = false :=
    not_lineEnd_of_any (by decide)
  have hText : (Generator.summaryText indent summary).toList ++ rest =
      "    /// <summary>".toList ++ '\n' :: (("    /// ".toList ++ summary.toList) ++
        '\n' :: ("    /// </summary>".toList ++ '\n' :: rest)) := by
    simp [Generator.summaryText, indent]
  rw [hText, lines_append hEnd, lines_append hEnd, lines_of_line hOpening, lines_append hEnd,
    lines_append hEnd, lines_of_line hClosing, List.singleton_append, List.singleton_append,
    List.cons_append]

/-- A comment at the beginning of a line is three lines of the text exactly
if its summary is one. -/
theorem commentLines_infix_iff {front rest : List Char} {summary : String} :
    commentLines summary <:+:
        lines (front ++ '\n' :: ((Generator.summaryText indent summary).toList ++ rest)) ↔
      ∀ c ∈ summary.toList, isLineEnd c = false := by
  have hMark : ∀ c ∈ "    /// ".toList, isLineEnd c = false := not_lineEnd_of_any (by decide)
  constructor
  · intro hInfix c hc
    have hLine : "    /// ".toList ++ summary.toList ∈ commentLines summary :=
      List.mem_cons_of_mem _ List.mem_cons_self
    exact not_lineEnd_of_mem_lines (hInfix.subset hLine) c (List.mem_append_right _ hc)
  · intro hSummary
    refine ⟨lines front, lines rest, ?_⟩
    rw [lines_summaryText, lines_of_line (List.forall_mem_append.mpr ⟨hMark, hSummary⟩),
      List.append_assoc]
    rfl

open Generator in
/-- The summary of a function comes from a doc comment of the source. It is
not empty, no blank stands at its ends, and it has no newline. The interface
has it in the comment before each method of the function. It is one line
there exactly if it has none of the other ends of lines either. -/
theorem summary_of_readModule {path source doc : String} {m : ScriptModule} {f : Signature}
    (hRead : (readModule path source).module? = some m) (hf : f ∈ m.functions)
    (hDoc : f.doc = some doc) :
    (∃ body, HasDocComment source.toList body ∧ IsSummary body doc) ∧
      ∀ s modules generated, m ∈ modules → generate s modules = .ok generated →
        ∃ g, ofSettings s = .ok g ∧
          (∀ flavour ∈ g.flavoursFor f,
            (summaryText indent (Text.escapeXml doc) ++
                (indent ++ g.methodDeclaration m f flavour ++ ";\n")).toList <:+:
              generated.interface.content.toList) ∧
          (commentLines (Text.escapeXml doc) <:+: lines generated.interface.content.toList ↔
            ∀ c ∈ doc.toList, isLineEnd c = false) := by
  refine ⟨isSummary_of_readModule hRead hf hDoc, fun s modules generated hm h => ?_⟩
  obtain ⟨g, hg, -, rfl⟩ := (generate_eq_ok_iff _).mp h
  obtain ⟨-, -, -, hFlavours, -⟩ := ofSettings_ok hg
  have hText (flavour : Flavour) (hFlavour : flavour ∈ g.flavoursFor f) :
      ∃ front rest, (g.interfaceText (g.plan modules)).toList =
        front ++ '\n' :: ((summaryText indent (Text.escapeXml doc)).toList ++
          ((indent ++ g.methodDeclaration m f flavour ++ ";\n").toList ++ rest)) := by
    have hSummary : methodSummary m.url f (g.method m f flavour) = Text.escapeXml doc := by
      rw [methodSummary, hDoc]
      rfl
    rw [← hSummary]
    exact exists_interfaceText_eq hm hf hFlavour
  refine ⟨g, hg, fun flavour hFlavour => ?_, ?_⟩
  · obtain ⟨front, rest, hInterface⟩ := hText flavour hFlavour
    refine ⟨front ++ ['\n'], rest, ?_⟩
    change _ = (g.interfaceText (g.plan modules)).toList
    rw [hInterface, String.toList_append]
    simp
  · obtain ⟨flavour, hFlavour⟩ := List.exists_mem_of_ne_nil _ (flavoursFor_ne_nil hFlavours f)
    obtain ⟨front, rest, hInterface⟩ := hText flavour hFlavour
    change commentLines _ <:+: lines (g.interfaceText (g.plan modules)).toList ↔ _
    rw [hInterface, commentLines_infix_iff, Text.lineEnd_escapeXml_iff]

open Generator in
/-- A comment of several lines, with a tag and with characters that are
escaped. -/
theorem summary_of_readModule_tagged :
    let source := "/**\n * Opens the <door>.\n * Once.\n * @returns nothing\n */
      export function open(): void;"
    let doc := "Opens the <door>. Once."
    ∃ m f generated, (readModule "m.d.ts" source).module? = some m ∧ f ∈ m.functions ∧
      f.doc = some doc ∧ generate {} [m] = .ok generated ∧
      (∃ body, HasDocComment source.toList body ∧ IsSummary body doc) ∧
      ∃ g, ofSettings {} = .ok g ∧
        (∀ flavour ∈ g.flavoursFor f,
          (summaryText indent (Text.escapeXml doc) ++
              (indent ++ g.methodDeclaration m f flavour ++ ";\n")).toList <:+:
            generated.interface.content.toList) ∧
        (commentLines (Text.escapeXml doc) <:+: lines generated.interface.content.toList ↔
          ∀ c ∈ doc.toList, isLineEnd c = false) := by
  intro source doc
  have hRead : (readModule "m.d.ts" source).module? =
      some (.ofPath "m.d.ts" [⟨"open", [], [], .primitive .void, some doc⟩]) := by decide +kernel
  have hOk : (generate {} [.ofPath "m.d.ts" [⟨"open", [], [], .primitive .void, some doc⟩]]).map
      (fun _ => ()) = .ok () := by decide +kernel
  obtain ⟨generated, hGenerated, -⟩ := Outcomes.map_ok hOk
  obtain ⟨hSummary, hInterface⟩ := summary_of_readModule hRead List.mem_cons_self rfl
  exact ⟨_, _, generated, hRead, List.mem_cons_self, rfl, hGenerated, hSummary,
    hInterface {} _ generated List.mem_cons_self hGenerated⟩

/-- What stands behind a carriage return in a doc comment is a line of
code. -/
theorem summary_with_carriage_return :
    ∃ m f generated,
      (readModule "m.d.ts" "/** a\rb */\nexport function f(): void;").module? = some m ∧
      f ∈ m.functions ∧ f.doc = some "a\rb" ∧ generate {} [m] = .ok generated ∧
      ["    /// <summary>".toList, "    /// a".toList, "b".toList] <:+:
        lines generated.interface.content.toList ∧
      ¬commentLines (Text.escapeXml "a\rb") <:+: lines generated.interface.content.toList := by
  have hRead : (readModule "m.d.ts" "/** a\rb */\nexport function f(): void;").module? =
      some (.ofPath "m.d.ts" [⟨"f", [], [], .primitive .void, some "a\rb"⟩]) := by decide +kernel
  have hOk : (generate {} [.ofPath "m.d.ts" [⟨"f", [], [], .primitive .void, some "a\rb"⟩]]).map
      (fun _ => ()) = .ok () := by decide +kernel
  obtain ⟨generated, hGenerated, -⟩ := Outcomes.map_ok hOk
  obtain ⟨g, hg, -, rfl⟩ := (Generator.generate_eq_ok_iff _).mp hGenerated
  obtain ⟨-, -, -, hFlavours, -⟩ := Generator.ofSettings_ok hg
  obtain ⟨flavour, hFlavour⟩ :=
    List.exists_mem_of_ne_nil _ (Generator.flavoursFor_ne_nil hFlavours _)
  have hf : ⟨"f", [], [], .primitive .void, some "a\rb"⟩ ∈ (ScriptModule.ofPath "m.d.ts"
      [⟨"f", [], [], .primitive .void, some "a\rb"⟩]).functions := List.mem_singleton_self _
  obtain ⟨front, rest, hInterface⟩ :=
    Generator.exists_interfaceText_eq (List.mem_singleton_self _) hf hFlavour
  have hEscaped : Text.escapeXml "a\rb" = "a\rb" := by decide +kernel
  have hLines : lines ("    /// ".toList ++ "a\rb".toList) = ["    /// a".toList, "b".toList] := by
    decide +kernel
  refine ⟨_, _, _, hRead, hf, rfl, hGenerated, ?_, fun hInfix => ?_⟩
  · change _ <:+: lines (g.interfaceText (g.plan _)).toList
    rw [hInterface, Generator.methodSummary, Option.getD_some, hEscaped, lines_summaryText, hLines]
    exact ⟨lines front, _, List.append_assoc _ _ _⟩
  · change _ <:+: lines (g.interfaceText (g.plan _)).toList at hInfix
    rw [hInterface] at hInfix
    have hReturn := commentLines_infix_iff.mp hInfix '\r' (by rw [hEscaped]; decide)
    cases hReturn

end ScriptBindings
