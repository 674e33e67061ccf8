import ScriptBindings.Command.Output
import ScriptBindings.Proofs.Binding.Independence
import ScriptBindings.Proofs.Text.Replacing

/-! The marker of generated sources. Every source begins with the two lines
of the header, and filling the slots of the scaffold leaves them as they
are, so that each source is recognised as generated. -/
namespace ScriptBindings

/-- The lines that every generated source begins with. -/
def markedLines : String :=
  "// <auto-generated/>\n" ++ generatedMarker ++ " Changes to this file will be lost.\n"

/-- The two lines that tell a generated file from one written by hand,
character by character, so that the line breaks between them can be
found. -/
theorem toList_markedLines :
    markedLines.toList = "// <auto-generated/>".toList ++ ['\n'] ++ generatedMarker.toList ++
      (" Changes to this file will be lost.".toList ++ ['\n']) := by
  have hText (first last : String) : (first ++ generatedMarker ++ last).toList =
      first.toList ++ generatedMarker.toList ++ last.toList := by
    rw [String.toList_append, String.toList_append]
  exact (hText _ _).trans (congrArg₂ (· ++ generatedMarker.toList ++ ·) rfl rfl)

/-- A file counts as generated by its second line. Where the first line
breaks is fixed by there being no break before. -/
theorem isMarked_of_lines {text : String} {first second rest : List Char} (hFirst : '\n' ∉ first)
    (hSecond : '\n' ∉ second) (hMarker : generatedMarker.toList <+: second)
    (hText : text.toList = first ++ '\n' :: (second ++ '\n' :: rest)) : isMarked text = true := by
  have hLines : Text.lines text.toList = first :: second :: Text.lines rest := by
    rw [hText, Text.lines, List.splitOn_append_cons_self_of_not_mem hFirst,
      List.splitOn_append_cons_self_of_not_mem hSecond]
    rfl
  rw [isMarked, hLines, List.take_succ_cons, List.take_succ_cons, List.any_cons, List.any_cons,
    List.isPrefixOf_iff_prefix.mpr hMarker, Bool.true_or, Bool.or_true]

/-- Whatever follows the two lines, the file is recognised, because the
second line is complete. -/
theorem isMarked_of_append {text : String} {rest : List Char}
    (hText : markedLines.toList ++ rest = text.toList) : isMarked text = true := by
  have hFirst : '\n' ∉ "// <auto-generated/>".toList := by simp
  have hSecond : '\n' ∉ generatedMarker.toList ++ " Changes to this file will be lost.".toList := by
    simp [generatedMarker]
  have hShape (first marker second : List Char) :
      first ++ ['\n'] ++ marker ++ (second ++ ['\n']) ++ rest =
        first ++ '\n' :: (marker ++ second ++ '\n' :: rest) := by
    simp
  rw [toList_markedLines, hShape] at hText
  exact isMarked_of_lines hFirst hSecond (List.prefix_append _ _) hText.symm

/-- The same for a text that begins with the lines, the form in which the
printers give it. -/
theorem isMarked_of_prefix {text : String} (h : markedLines.toList <+: text.toList) :
    isMarked text = true :=
  h.elim fun _ => isMarked_of_append

namespace Scaffold

variable {front text : List Char} {values : List (String × String)}

theorem fill_cons (text : List Char) (key value : String) (rest : List (String × String)) :
    fill text ((key, value) :: rest) =
      fill (Text.replace (slot key).toList value.toList text) rest := rfl

/-- Filling slots changes nothing before the first brace. -/
theorem prefix_fill (hFront : '\x7b' ∉ front) (h : front <+: text) :
    front <+: fill text values := by
  induction values generalizing text with
  | nil => exact h
  | cons entry rest ih =>
      obtain ⟨key, value⟩ := entry
      obtain ⟨behind, rfl⟩ := h
      have hSlot : (slot key).toList.head? = some '\x7b' := by
        rw [slot, String.toList_append, String.toList_append]
        rfl
      rw [fill_cons, Text.replace_append hSlot hFront]
      exact ih (List.prefix_append _ _)

/-- The scaffold begins with its header, as far as that has no braces. -/
theorem prefix_render {header hostNamespace className interfaceName : String}
    {serviceExtension : Bool} (hFront : '\x7b' ∉ front) (h : front <+: header.toList) :
    front <+: (render header hostNamespace className interfaceName serviceExtension).toList := by
  have hLines : runtimeLines = slot "header" :: runtimeLines.tail := rfl
  have hSlot : (slot "header").toList ≠ [] := by
    rw [slot, String.toList_append, String.toList_append]
    exact List.append_ne_nil_of_right_ne_nil _ (List.cons_ne_nil _ _)
  rw [render, String.toList_ofList]
  refine List.IsPrefix.trans ?_ (List.prefix_append _ _)
  rw [fill_cons, hLines, ofLines, List.flatMap_cons, List.append_assoc, Text.replace_key hSlot]
  exact prefix_fill hFront (h.trans (List.prefix_append _ _))

end Scaffold

namespace Generator

variable (g : Generator)

/-- Every header begins with the lines, before any `using` directive. -/
theorem markedLines_prefix_header (usings : List String) :
    markedLines.toList <+: (g.header usings).toList := by
  have hHeader : g.header usings = markedLines ++ "#pragma warning disable\n" ++
      "#nullable enable annotations\n\n" ++ String.join
        ((usings ++ g.settings.usings).eraseDups.map fun name => "using " ++ name ++ ";\n") := rfl
  simp only [hHeader, String.toList_append, List.append_assoc]
  exact List.prefix_append _ _

/-- The class is printed from a template, and filling its slots leaves the
first two lines alone. -/
theorem isMarked_scaffoldText : isMarked g.scaffoldText = true := by
  have hBrace : '\x7b' ∉ markedLines.toList := by
    rw [toList_markedLines]
    simp [generatedMarker]
  rw [scaffoldText]
  exact isMarked_of_prefix (Scaffold.prefix_render hBrace (g.markedLines_prefix_header _))

/-- The interface is recognised as generated, whatever modules it
declares. -/
theorem isMarked_interfaceText (plans : List ModulePlan) :
    isMarked (g.interfaceText plans) = true := by
  refine isMarked_of_prefix ?_
  simp only [interfaceText, String.toList_append, List.append_assoc]
  exact (g.markedLines_prefix_header _).trans (List.prefix_append _ _)

/-- So is each fragment, whatever module it was printed for. -/
theorem isMarked_moduleText (plan : ModulePlan) : isMarked (g.moduleText plan) = true := by
  refine isMarked_of_prefix ?_
  simp only [moduleText, String.toList_append, List.append_assoc]
  exact (g.markedLines_prefix_header _).trans (List.prefix_append _ _)

/-- Every source of a generator bears the marker. -/
theorem isMarked_of_mem_emit {plans : List ModulePlan} {fragment : Fragment}
    (h : fragment ∈ (g.emit plans).fragments) : isMarked fragment.content = true := by
  rcases List.mem_cons.mp h with rfl | h
  · exact g.isMarked_scaffoldText
  · rcases List.mem_cons.mp h with rfl | h
    · exact g.isMarked_interfaceText plans
    · obtain ⟨plan, -, rfl⟩ := List.mem_map.mp h
      exact g.isMarked_moduleText plan

end Generator

end ScriptBindings
