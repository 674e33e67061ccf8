import ScriptBindings.Declaration.Reader
import ScriptBindings.Proofs.Declaration.CommentLayout
import ScriptBindings.Proofs.Outcomes
import ScriptBindings.Proofs.Text.Offsets

/-! Comments are transparent. A source and what blanking leaves of it agree
on every byte outside comments and on every newline, so that a module reads
alike from both but for its doc comments. -/
namespace ScriptBindings

namespace Text

/-- Two texts of one length have their newlines at the same offsets. -/
structure SameNewlines (first second : List UInt8) : Prop where
  length : first.length = second.length
  newline : ∀ i : Nat, first[i]? = some 10 ↔ second[i]? = some 10

namespace SameNewlines

theorem refl (text : List UInt8) : SameNewlines text text :=
  ⟨rfl, fun _ => Iff.rfl⟩

/-- Texts of one length without any newline agree about where their newlines
are. -/
theorem of_not_mem {first second : List UInt8} (hLength : first.length = second.length)
    (hFirst : 10 ∉ first) (hSecond : 10 ∉ second) : SameNewlines first second :=
  ⟨hLength, fun _ => iff_of_false (fun h => hFirst (List.mem_of_getElem? h))
    fun h => hSecond (List.mem_of_getElem? h)⟩

/-- Texts may be compared piece by piece, as long as the pieces are of the
same length. -/
theorem append {first second front back : List UInt8} (h : SameNewlines first second)
    (hBehind : SameNewlines front back) : SameNewlines (first ++ front) (second ++ back) where
  length := by rw [List.length_append, List.length_append, h.length, hBehind.length]
  newline := by
    intro i
    by_cases hFront : i < first.length
    · rw [List.getElem?_append_left hFront, List.getElem?_append_left (h.length ▸ hFront)]
      exact h.newline i
    · have hBack : first.length ≤ i := by omega
      rw [List.getElem?_append_right hBack, List.getElem?_append_right (h.length ▸ hBack), h.length]
      exact hBehind.newline _

end SameNewlines

/-- Lines are counted piece by piece, each piece at its own offset. -/
theorem newlinesBefore_append (stop offset : Nat) (first second : List Char) :
    newlinesBefore stop offset (first ++ second) =
      newlinesBefore stop offset first +
        newlinesBefore stop (offset + byteCount first) second := by
  induction first generalizing offset with
  | nil => simp [newlinesBefore]
  | cons c rest ih =>
      simp only [List.cons_append, newlinesBefore, ih, byteCount_cons, Nat.add_assoc]
      split <;> omega

theorem newlinesBefore_of_not_mem (stop offset : Nat) {text : List Char} (h : '\n' ∉ text) :
    newlinesBefore stop offset text = 0 := by
  induction text generalizing offset with
  | nil => rfl
  | cons c rest ih =>
      simp only [List.mem_cons, not_or] at h
      simp [newlinesBefore, ih _ h.2, Ne.symm h.1]

end Text

namespace Declaration

open Text Outcomes

variable {c : Char} {stretches : List Stretch}

theorem byteCount_blankOut (c : Char) : byteCount (blankOut c) = c.utf8Size := by
  have hSpaces (n : Nat) : byteCount (List.replicate n ' ') = n := by
    induction n with
    | zero => rfl
    | succ n ih =>
        rw [List.replicate_succ, byteCount_cons, ih, Nat.add_comm]
        rfl
  unfold blankOut
  split
  · rfl
  · exact hSpaces _

/-- A newline inside of a comment stays where it was, and no other character
turns into one. -/
theorem sameNewlines_blankOut (c : Char) :
    SameNewlines (bytes (blankOut c)) (String.utf8EncodeChar c) := by
  by_cases hNewline : c = '\n'
  · subst hNewline
    exact .refl _
  · refine .of_not_mem ?_ ?_ (mt newline_mem_utf8EncodeChar_iff.mp hNewline)
    · rw [length_bytes, byteCount_blankOut, String.length_utf8EncodeChar]
    · rw [blankOut, if_neg (by simpa using hNewline)]
      intro hMem
      obtain ⟨d, hd, hByte⟩ := List.mem_flatMap.mp hMem
      rw [List.eq_of_mem_replicate hd] at hByte
      simp [newline_mem_utf8EncodeChar_iff] at hByte

/-- So the count of lines is not changed by blanking a character. -/
theorem newlinesBefore_blankOut (stop offset : Nat) (c : Char) :
    newlinesBefore stop offset (blankOut c) = newlinesBefore stop offset [c] := by
  unfold blankOut
  split
  · rfl
  · next hNewline =>
      have hSpaces : '\n' ∉ List.replicate c.utf8Size ' ' :=
        fun h => by simpa using List.eq_of_mem_replicate h
      have hChar : '\n' ∉ [c] := by simpa [@eq_comm _ '\n'] using hNewline
      rw [newlinesBefore_of_not_mem _ _ hSpaces, newlinesBefore_of_not_mem _ _ hChar]

namespace Stretch

/-- Cleaning a stretch leaves its newlines in place. -/
theorem sameNewlines (s : Stretch) : SameNewlines (bytes s.cleaned) (bytes s.text) := by
  unfold cleaned
  split
  · induction s.text with
    | nil => exact .refl _
    | cons c rest ih =>
        rw [List.flatMap_cons, bytes_append, bytes_cons]
        exact (sameNewlines_blankOut c).append ih
  · exact .refl _

/-- And it leaves its length as it was. -/
theorem byteCount_cleaned (s : Stretch) : byteCount s.cleaned = byteCount s.text := by
  rw [← length_bytes, ← length_bytes, s.sameNewlines.length]

/-- So that lines are counted alike in the stretch and in what is left of
it. -/
theorem newlinesBefore_cleaned (stop offset : Nat) (s : Stretch) :
    newlinesBefore stop offset s.cleaned = newlinesBefore stop offset s.text := by
  unfold cleaned
  split
  · induction s.text generalizing offset with
    | nil => rfl
    | cons c rest ih =>
        have hText : newlinesBefore stop offset (c :: rest) =
            newlinesBefore stop offset [c] + newlinesBefore stop (offset + c.utf8Size) rest :=
          newlinesBefore_append stop offset [c] rest
        rw [List.flatMap_cons, newlinesBefore_append, newlinesBefore_blankOut, byteCount_blankOut, ih,
          hText]
  · rfl

end Stretch

/-- The same for a source, stretch by stretch. So every place has the same
line and the same offset in the cleaned text. -/
theorem sameNewlines_cleanedOf (stretches : List Stretch) :
    SameNewlines (bytes (cleanedOf stretches)) (bytes (textOf stretches)) := by
  induction stretches with
  | nil => exact .refl _
  | cons s rest ih =>
      rw [cleanedOf_cons, textOf_cons, bytes_append, bytes_append]
      exact s.sameNewlines.append ih

/-- A place has the same line in a source and in its cleaned text. -/
theorem newlinesBefore_cleanedOf (stop offset : Nat) (stretches : List Stretch) :
    newlinesBefore stop offset (cleanedOf stretches) =
      newlinesBefore stop offset (textOf stretches) := by
  induction stretches generalizing offset with
  | nil => rfl
  | cons s rest ih =>
      rw [cleanedOf_cons, textOf_cons, newlinesBefore_append, newlinesBefore_append,
        s.newlinesBefore_cleaned, s.byteCount_cleaned, ih]

/-- For every byte of a source, whether it belongs to a comment. -/
def commentBytes (stretches : List Stretch) : List Bool :=
  stretches.flatMap fun s => List.replicate (byteCount s.text) s.isComment

/-- Bytes outside of comments are not changed. With the newlines kept this
is all that positions depend on. -/
theorem getElem?_cleanedOf {i : Nat} (h : (commentBytes stretches)[i]? = some false) :
    (bytes (cleanedOf stretches))[i]? = (bytes (textOf stretches))[i]? := by
  induction stretches generalizing i with
  | nil => rfl
  | cons s rest ih =>
      have hMask : (commentBytes (s :: rest)) =
          List.replicate (byteCount s.text) s.isComment ++ commentBytes rest := rfl
      have hCleaned : (bytes s.cleaned).length = byteCount s.text := by
        rw [length_bytes, s.byteCount_cleaned]
      have hText : (bytes s.text).length = byteCount s.text := length_bytes s.text
      rw [hMask] at h
      rw [cleanedOf_cons, textOf_cons, bytes_append, bytes_append]
      by_cases hFront : i < byteCount s.text
      · rw [List.getElem?_append_left (by simpa using hFront)] at h
        have hCode : s.isComment = false :=
          (List.eq_of_mem_replicate (List.mem_of_getElem? h)).symm
        rw [Stretch.cleaned, hCode, if_neg Bool.false_ne_true,
          List.getElem?_append_left (hText.symm ▸ hFront),
          List.getElem?_append_left (hText.symm ▸ hFront)]
      · have hBehind : byteCount s.text ≤ i := by omega
        rw [List.getElem?_append_right (by simpa using hBehind), List.length_replicate] at h
        rw [List.getElem?_append_right (by omega), List.getElem?_append_right (by omega), hCleaned,
          hText, ih h]

/-! ### Reading the blanked source -/

/-- The statement without its doc comment. -/
def Statement.withoutDoc (statement : Statement) : Statement :=
  { statement with doc := none }

/-- Without the recorded docs the same statements are cut, none of them with
a doc. -/
theorem statementsFrom_withoutDocs (blanked : Blanked) (previous : Nat) (found : List Span) :
    statementsFrom ⟨blanked.text, []⟩ previous found =
      (statementsFrom blanked previous found).map (·.withoutDoc) := by
  induction found generalizing previous with
  | nil => rfl
  | cons span rest ih =>
      rw [statementsFrom, statementsFrom, List.map_cons, ih]
      rfl

/-- Blanking a source twice finds the statements of blanking it once,
without the docs, which are gone after the first time. -/
theorem statements_blanked (source : List Char) :
    statements (blankComments source).text =
      (statements source).map (·.map (·.withoutDoc)) := by
  unfold statements
  rw [blankComments_blanked]
  dsimp only
  cases spans (blankComments source).text with
  | error fault => rfl
  | ok found => exact congrArg _ (statementsFrom_withoutDocs _ 0 found)

end Declaration

open Text Declaration

def Signature.withoutDoc (f : Signature) : Signature :=
  { f with doc := none }

/-- The reading without the doc comments of the functions. -/
def ModuleReading.withoutDocs (r : ModuleReading) : ModuleReading :=
  { r with module? := r.module?.map fun m =>
      { m with functions := m.functions.map (·.withoutDoc) } }

def Finding.withoutDoc : Finding → Finding
  | .function signature => .function signature.withoutDoc
  | finding => finding

/-- What is found in a statement does not depend on its doc but for the doc
itself. -/
theorem ofStatement_withoutDoc (statement : Statement) :
    Finding.ofStatement statement.withoutDoc = (Finding.ofStatement statement).withoutDoc := by
  unfold Finding.ofStatement Statement.withoutDoc
  dsimp only
  cases Signature.afterKeywords? statement.text with
  | none => rfl
  | some text =>
      dsimp only
      cases Signature.parse text <;> rfl

/-- Reading statements goes the same way without docs, if places are the
same in both texts. -/
theorem readStatements_withoutDocs {path : String} {source cleaned : List Char}
    (hPlace : ∀ offset kind,
      Diagnostic.place path cleaned offset kind = Diagnostic.place path source offset kind)
    (taken : List String) (found : List Statement) :
    readStatements path cleaned taken (found.map (·.withoutDoc)) =
      ((readStatements path source taken found).1.map (·.withoutDoc),
        (readStatements path source taken found).2) := by
  induction found generalizing taken with
  | nil => rfl
  | cons statement rest ih =>
      rw [List.map_cons, readStatements, readStatements, ofStatement_withoutDoc]
      cases Finding.ofStatement statement with
      | other => exact ih taken
      | malformed fault => simp only [Finding.withoutDoc, ih, hPlace]; rfl
      | function signature =>
          have hName : signature.withoutDoc.name = signature.name := rfl
          simp only [Finding.withoutDoc, ih, hPlace, hName]
          split <;> rfl

/-- What blanking leaves of a source. -/
def cleanedSource (source : String) : String :=
  String.ofList (blankComments source.toList).text

theorem toList_cleanedSource (source : String) :
    (cleanedSource source).toList = (blankComments source.toList).text :=
  String.toList_ofList

/-- The cleaned text of a source is that of its stretches, each cleaned by
itself. -/
theorem exists_layout_cleanedSource (source : String) :
    ∃ stretches, Layout stretches ∧ textOf stretches = source.toList ∧
      cleanedOf stretches = (cleanedSource source).toList := by
  obtain ⟨stretches, hLayout, hText⟩ := exists_layout source.toList
  refine ⟨stretches, hLayout, hText, ?_⟩
  rw [toList_cleanedSource, ← hText]
  exact hLayout.text_blankFrom.symm

/-- Diagnostics on the blanked source stand at the places of those on the
source. -/
theorem place_cleanedSource (path source : String) (offset : Nat) (kind : Diagnostic.Kind) :
    Diagnostic.place path (cleanedSource source).toList offset kind =
      Diagnostic.place path source.toList offset kind := by
  obtain ⟨stretches, -, hText, hCleaned⟩ := exists_layout_cleanedSource source
  have hCount : byteCount (cleanedOf stretches) = byteCount (textOf stretches) := by
    rw [← length_bytes, ← length_bytes, (sameNewlines_cleanedOf stretches).length]
  have hLine (stop : Nat) : lineAt stop (cleanedOf stretches) = lineAt stop (textOf stretches) :=
    congrArg (· + 1) (newlinesBefore_cleanedOf stop 0 stretches)
  rw [← hText, ← hCleaned]
  simp only [Diagnostic.place, hCount, hLine]

/-- Reading the cleaned source gives what reading the source does, without
the docs. Faults and their places are the same. -/
theorem readModule_cleanedSource (path source : String) :
    readModule path (cleanedSource source) = (readModule path source).withoutDocs := by
  have hStatements : statements (cleanedSource source).toList =
      (statements source.toList).map (·.map (·.withoutDoc)) := by
    rw [toList_cleanedSource]
    exact statements_blanked source.toList
  unfold readModule
  dsimp only
  rw [hStatements]
  cases statements source.toList with
  | error fault =>
      simp only [Except.map, place_cleanedSource]
      rfl
  | ok found =>
      simp only [Except.map, readStatements_withoutDocs (place_cleanedSource path source)]
      rfl

/-- Comments are transparent. Every source is laid out as code, literals and
comments. Blanking keeps the number of bytes, the offsets of the newlines
and every byte outside comments, it finds nothing more to blank in its own
result, and the module is read from that result as from the source, without
its doc comments and with the same diagnostics. -/
theorem comments_transparent (path source : String) :
    (∃ stretches, Layout stretches ∧ textOf stretches = source.toList) ∧
    (∀ stretches, Layout stretches → textOf stretches = source.toList →
      ∀ i : Nat, (commentBytes stretches)[i]? = some false →
        (bytes (cleanedSource source).toList)[i]? = (bytes source.toList)[i]?) ∧
    SameNewlines (bytes (cleanedSource source).toList) (bytes source.toList) ∧
    blankComments (cleanedSource source).toList = ⟨(cleanedSource source).toList, []⟩ ∧
    readModule path (cleanedSource source) = (readModule path source).withoutDocs := by
  refine ⟨exists_layout source.toList, fun stretches hLayout hText i hOutside => ?_, ?_, ?_,
    readModule_cleanedSource path source⟩
  · rw [toList_cleanedSource, ← hText]
    rw [show (blankComments (textOf stretches)).text = _ from hLayout.text_blankFrom]
    exact getElem?_cleanedOf hOutside
  · obtain ⟨stretches, -, hText, hCleaned⟩ := exists_layout_cleanedSource source
    rw [← hText, ← hCleaned]
    exact sameNewlines_cleanedOf stretches
  · rw [toList_cleanedSource]
    exact blankComments_blanked source.toList

end ScriptBindings
