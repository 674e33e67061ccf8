import ScriptBindings.Name.Pattern
import ScriptBindings.Proofs.Outcomes
import ScriptBindings.Proofs.Text.Inclusion
import ScriptBindings.Proofs.Text.Trimming

/-! What a name pattern is and what becomes of it. A pattern is a text of
literal characters and placeholders in braces. Compiling it loses nothing,
and a name is the text with all its placeholders filled in at once. -/
namespace ScriptBindings

open Text Outcomes

namespace Placeholder

variable {which : Placeholder} {text rest : List Char}

end Placeholder

namespace NamePattern

variable {kind : NameKind} {fill : Placeholder → List Char} {text rest filled : List Char}
  {segments : List Segment} {which : Placeholder}

namespace Segment

/-- The segment as it stands in a pattern. -/
def written : Segment → List Char
  | .literal text => text
  | .placeholder which => '\x7b' :: (which.token.toList ++ ['\x7d'])

/-- The segment with the placeholder filled in. -/
def filledBy (fill : Placeholder → List Char) : Segment → List Char
  | .literal text => text
  | .placeholder which => fill which

end Segment

/-- The text that a pattern was compiled from. -/
def written (p : NamePattern) : String :=
  String.ofList (p.segments.flatMap Segment.written)

/-- What the placeholders of a name stand for. -/
def cased (casing : Casing) (context : NameContext) (which : Placeholder) : List Char :=
  casing.applyChars (context.value which).toList

theorem toList_render (p : NamePattern) (context : NameContext) :
    (p.render context).toList = p.segments.flatMap (Segment.filledBy (cased p.casing context)) := by
  have hSegment : renderSegment p.casing context = Segment.filledBy (cased p.casing context) := by
    funext segment
    cases segment <;> rfl
  rw [render, String.toList_ofList, hSegment]

/-- Each value begins with a capital, and a name that looks like a
placeholder is not filled in again. -/
example : (compile .method ⟨"\x7bname\x7d_\x7bmodule\x7d", .pascal⟩).map
    (·.render ⟨"\x7bmodule\x7d", "net", "", ""⟩) = .ok "\x7bmodule\x7d_Net" := by
  decide +kernel

end NamePattern

end ScriptBindings
