import ScriptBindings.Text.Replace

/-! Text inside XML comments. The three characters that would begin or end
markup are written as entities. -/
namespace ScriptBindings.Text

/-- The ampersand comes first: the entities that are written after it have
ampersands of their own. -/
def escapeXml (text : String) : String :=
  let ampersands := replace ['&'] "&amp;".toList text.toList
  let openings := replace ['<'] "&lt;".toList ampersands
  String.ofList (replace ['>'] "&gt;".toList openings)

end ScriptBindings.Text
