import ScriptBindings.Declaration.Comment
import ScriptBindings.Text.Affix

/-! Sources laid out as stretches: characters of code, string literals and
comments. The layout does not mention how comments are found. Every source
has one, and blanking is a map over its stretches. -/
namespace ScriptBindings.Declaration

open Text ScriptBindings.Bracket

/-- What follows the opening quote of a literal, and whether the literal
ends there: at its quote or at the end of the line, unless either is
escaped. -/
inductive LiteralBody (quote : Char) : Bool → List Char → Prop where
  | ends {c : Char} (hEnd : c = quote ∨ c = '\n') : LiteralBody quote true [c]
  | opened : LiteralBody quote false []
  | backslash : LiteralBody quote false ['\\']
  | escape {closed : Bool} {body : List Char} (c : Char) (later : LiteralBody quote closed body) :
      LiteralBody quote closed ('\\' :: c :: body)
  | cons {closed : Bool} {body : List Char} {c : Char} (hBackslash : c ≠ '\\') (hQuote : c ≠ quote)
      (hNewline : c ≠ '\n') (later : LiteralBody quote closed body) :
      LiteralBody quote closed (c :: body)

/-- A part of a source that is a comment as a whole or holds none. -/
structure Stretch where
  text : List Char
  isComment : Bool
  deriving DecidableEq, Repr

namespace Stretch

/-- What stands in place of the stretch once comments are blanked. -/
def cleaned (s : Stretch) : List Char :=
  if s.isComment then s.text.flatMap blankOut else s.text

end Stretch

def textOf (stretches : List Stretch) : List Char :=
  stretches.flatMap Stretch.text

def cleanedOf (stretches : List Stretch) : List Char :=
  stretches.flatMap Stretch.cleaned

/-- The stretches of a source in order. Only the last literal and the last
block comment may be left open. -/
inductive Layout : List Stretch → Prop where
  | nil : Layout []
  | code {c : Char} {rest : List Stretch} (hQuote : isQuote c = false)
      (hSlash : c = '/' → (textOf rest).head? ≠ some '/' ∧ (textOf rest).head? ≠ some '*')
      (later : Layout rest) : Layout (⟨[c], false⟩ :: rest)
  | literal {quote : Char} {closed : Bool} {body : List Char} {rest : List Stretch}
      (hQuote : isQuote quote = true) (hBody : LiteralBody quote closed body)
      (hClosed : closed = true ∨ rest = []) (later : Layout rest) :
      Layout (⟨quote :: body, false⟩ :: rest)
  | lineComment {body : List Char} {rest : List Stretch} (hBody : '\n' ∉ body)
      (hRest : ∀ c, (textOf rest).head? = some c → c = '\n') (later : Layout rest) :
      Layout (⟨'/' :: '/' :: body, true⟩ :: rest)
  | blockComment {body : List Char} {rest : List Stretch} (hBody : ¬['*', '/'] <:+: body)
      (later : Layout rest) :
      Layout (⟨'/' :: '*' :: (body ++ ['*', '/']), true⟩ :: rest)
  | openComment {body : List Char} (hBody : ¬['*', '/'] <:+: body) :
      Layout [⟨'/' :: '*' :: body, true⟩]

@[simp] theorem textOf_nil : textOf [] = [] := rfl

@[simp] theorem textOf_cons (s : Stretch) (rest : List Stretch) :
    textOf (s :: rest) = s.text ++ textOf rest := rfl

@[simp] theorem cleanedOf_nil : cleanedOf [] = [] := rfl

@[simp] theorem cleanedOf_cons (s : Stretch) (rest : List Stretch) :
    cleanedOf (s :: rest) = s.cleaned ++ cleanedOf rest := rfl

namespace Blanked

@[simp] theorem append_text (text : List Char) (rest : Blanked) :
    (rest.append text).text = text ++ rest.text := rfl

@[simp] theorem append_docs (text : List Char) (rest : Blanked) :
    (rest.append text).docs = rest.docs := rfl

/-- Text may be put in front of a blanked source in one piece or in two. -/
theorem append_append (first second : List Char) (rest : Blanked) :
    (rest.append second).append first = rest.append (first ++ second) := by
  simp [append]

end Blanked

variable {text body : List Char} {offset : Nat} {c quote : Char}

/-! ### Every source has a layout -/

/-- A literal ends, or it is left open to the end of the text. -/
theorem exists_literalBody (quote : Char) (text : List Char) :
    ∃ closed body rest, text = body ++ rest ∧ LiteralBody quote closed body ∧
      (closed = true ∨ rest = []) := by
  induction hLength : text.length using Nat.strongRecOn generalizing text with
  | ind n ih =>
      cases text with
      | nil => exact ⟨false, [], [], rfl, .opened, Or.inr rfl⟩
      | cons c rest =>
          rw [List.length_cons] at hLength
          by_cases hEnd : c = quote ∨ c = '\n'
          · exact ⟨true, [c], rest, rfl, .ends hEnd, Or.inl rfl⟩
          · rw [not_or] at hEnd
            by_cases hBackslash : c = '\\'
            · subst hBackslash
              cases rest with
              | nil => exact ⟨false, ['\\'], [], rfl, .backslash, Or.inr rfl⟩
              | cons d rest =>
                  rw [List.length_cons] at hLength
                  obtain ⟨closed, body, behind, rfl, hBody, hRest⟩ :=
                    ih rest.length (by omega) rest rfl
                  exact ⟨closed, '\\' :: d :: body, behind, rfl, .escape d hBody, hRest⟩
            · obtain ⟨closed, body, behind, rfl, hBody, hRest⟩ :=
                ih rest.length (by omega) rest rfl
              exact ⟨closed, c :: body, behind, rfl, .cons hBackslash hEnd.1 hEnd.2 hBody, hRest⟩

/-- A text is cut at the first `*/`, if there is one. -/
theorem exists_blockEnd (text : List Char) :
    (¬['*', '/'] <:+: text) ∨
      ∃ body rest, text = body ++ '*' :: '/' :: rest ∧ ¬['*', '/'] <:+: body := by
  induction text with
  | nil => exact Or.inl (by decide)
  | cons c rest ih =>
      by_cases hHere : ['*', '/'] <+: c :: rest
      · obtain ⟨behind, hText⟩ := hHere
        exact Or.inr ⟨[], behind, hText.symm, by decide⟩
      · rcases ih with hNone | ⟨body, behind, rfl, hBody⟩
        · refine Or.inl fun hInfix => ?_
          rcases List.infix_cons_iff.mp hInfix with hPrefix | hLater
          · exact hHere hPrefix
          · exact hNone hLater
        · refine Or.inr ⟨c :: body, behind, rfl, fun hInfix => ?_⟩
          rcases List.infix_cons_iff.mp hInfix with hPrefix | hLater
          · exact hHere (hPrefix.trans (List.prefix_append (c :: body) _))
          · exact hBody hLater

/-- A line is what stands before the first end of a line, which may be the
end of the text. -/
theorem exists_lineEnd (text : List Char) :
    ∃ body rest, text = body ++ rest ∧ '\n' ∉ body ∧ ∀ c, rest.head? = some c → c = '\n' := by
  induction text with
  | nil => exact ⟨[], [], rfl, List.not_mem_nil, by simp⟩
  | cons c rest ih =>
      by_cases hNewline : c = '\n'
      · exact ⟨[], c :: rest, rfl, List.not_mem_nil, by simp [hNewline]⟩
      · obtain ⟨body, behind, rfl, hBody, hHead⟩ := ih
        exact ⟨c :: body, behind, rfl, by simp [hBody, Ne.symm hNewline], hHead⟩

/-- Every source is laid out in stretches of code, literals and comments.
This is what lets blanking be described without following its states. -/
theorem exists_layout (source : List Char) :
    ∃ stretches, Layout stretches ∧ textOf stretches = source := by
  induction hLength : source.length using Nat.strongRecOn generalizing source with
  | ind n ih =>
      cases source with
      | nil => exact ⟨[], .nil, rfl⟩
      | cons c rest =>
          have hShorter {later : List Char} (h : later.length ≤ rest.length) :
              ∃ stretches, Layout stretches ∧ textOf stretches = later := by
            rw [List.length_cons] at hLength
            exact ih later.length (by omega) later rfl
          by_cases hQuote : isQuote c = true
          · obtain ⟨closed, body, behind, rfl, hBody, hClosed⟩ := exists_literalBody c rest
            obtain ⟨later, hLater, rfl⟩ := hShorter (show behind.length ≤ _ by simp)
            rcases hClosed with hClosed | hEnd
            · exact ⟨_, .literal hQuote hBody (Or.inl hClosed) hLater, rfl⟩
            · refine ⟨_, .literal hQuote hBody (Or.inr rfl) .nil, ?_⟩
              rw [hEnd]
              rfl
          · by_cases hLine : c = '/' ∧ rest.head? = some '/'
            · obtain ⟨rfl, hHead⟩ := hLine
              obtain ⟨tail, rfl⟩ := List.head?_eq_some_iff.mp hHead
              obtain ⟨body, behind, rfl, hBody, hBehind⟩ := exists_lineEnd tail
              obtain ⟨later, hLater, rfl⟩ :=
                hShorter (show behind.length ≤ _ by
                    simp only [List.length_cons, List.length_append]
                    omega)
              exact ⟨_, .lineComment hBody hBehind hLater, rfl⟩
            · by_cases hBlock : c = '/' ∧ rest.head? = some '*'
              · obtain ⟨rfl, hHead⟩ := hBlock
                obtain ⟨tail, rfl⟩ := List.head?_eq_some_iff.mp hHead
                rcases exists_blockEnd tail with hOpen | ⟨body, behind, rfl, hBody⟩
                · exact ⟨_, .openComment hOpen, by simp⟩
                · obtain ⟨later, hLater, rfl⟩ :=
                    hShorter (show behind.length ≤ _ by
                    simp only [List.length_cons, List.length_append]
                    omega)
                  exact ⟨_, .blockComment hBody hLater, by simp⟩
              · obtain ⟨later, hLater, rfl⟩ := hShorter (Nat.le_refl _)
                have hSlash (hc : c = '/') :
                    (textOf later).head? ≠ some '/' ∧ (textOf later).head? ≠ some '*' :=
                  ⟨fun h => hLine ⟨hc, h⟩, fun h => hBlock ⟨hc, h⟩⟩
                exact ⟨_, .code (by simpa using hQuote) hSlash hLater, rfl⟩

/-! ### Blanking, one step at a time -/

/-- Two slashes open a comment to the end of the line, and are blanked
themselves. -/
theorem blankFrom_lineOpener (offset : Nat) (text : List Char) :
    blankFrom .code offset ('/' :: '/' :: text) =
      (blankFrom .lineComment (offset + 2) text).append [' ', ' '] := rfl

/-- A slash and a star open a comment, and are blanked themselves. -/
theorem blankFrom_blockOpener (offset : Nat) (text : List Char) :
    blankFrom .code offset ('/' :: '*' :: text) =
      (blankFrom (.blockComment []) (offset + 2) text).append [' ', ' '] := rfl

/-- A character of code that opens no comment is kept. A quote begins a
literal. -/
theorem blankFrom_code_cons (hLine : ∀ rest, c = '/' → text = '/' :: rest → False)
    (hBlock : ∀ rest, c = '/' → text = '*' :: rest → False) :
    blankFrom .code offset (c :: text) =
      (blankFrom (if isQuote c then .literal c false else .code) (offset + c.utf8Size) text).append
        [c] := by
  rw [blankFrom]
  · exact hLine
  · exact hBlock

theorem blankFrom_literal_cons (quote : Char) (escaped : Bool) (offset : Nat) (c : Char)
    (text : List Char) :
    blankFrom (.literal quote escaped) offset (c :: text) =
      (blankFrom (afterLiteral quote escaped c) (offset + c.utf8Size) text).append [c] := rfl

/-- A comment to the end of the line is blanked until that end, which is
kept. -/
theorem blankFrom_lineComment_cons (offset : Nat) (c : Char) (text : List Char) :
    blankFrom .lineComment offset (c :: text) =
      (blankFrom (if c == '\n' then .code else .lineComment) (offset + c.utf8Size) text).append
        (blankOut c) := rfl

/-- A character of a block comment is blanked, and recorded for the doc,
unless it begins the closer. -/
theorem blankFrom_blockComment_cons {read : List Char}
    (h : ∀ rest, c = '*' → text = '/' :: rest → False) :
    blankFrom (.blockComment read) offset (c :: text) =
      (blankFrom (.blockComment (c :: read)) (offset + c.utf8Size) text).append (blankOut c) := by
  rw [blankFrom]
  exact h

/-! ### Blanking follows the layout -/

/-- In code without quotes and openers of comments a character is kept, and
code goes on. -/
theorem blankFrom_code (hQuote : isQuote c = false)
    (hSlash : c = '/' → text.head? ≠ some '/' ∧ text.head? ≠ some '*') :
    blankFrom .code offset (c :: text) =
      (blankFrom .code (offset + c.utf8Size) text).append [c] := by
  rw [blankFrom_code_cons, hQuote, if_neg Bool.false_ne_true]
  · rintro rest rfl rfl
    exact (hSlash rfl).1 rfl
  · rintro rest rfl rfl
    exact (hSlash rfl).2 rfl

theorem blankFrom_quote (hQuote : isQuote quote = true) :
    blankFrom .code offset (quote :: text) =
      (blankFrom (.literal quote false) (offset + quote.utf8Size) text).append [quote] := by
  have hSlash : quote ≠ '/' := by
    rintro rfl
    cases hQuote
  rw [blankFrom_code_cons, if_pos hQuote]
  · exact fun _ h => absurd h hSlash
  · exact fun _ h => absurd h hSlash

/-- Behind its end a literal does not matter, and an open one has nothing
behind it. -/
theorem blankFrom_literal {closed : Bool} (hQuote : isQuote quote = true)
    (hBody : LiteralBody quote closed body) (hClosed : closed = true ∨ text = []) :
    blankFrom (.literal quote false) offset (body ++ text) =
      (blankFrom .code (offset + byteCount body) text).append body := by
  have hBackslash : quote ≠ '\\' := by
    rintro rfl
    cases hQuote
  induction hBody generalizing offset with
  | @ends c hEnd =>
      have hCode : afterLiteral quote false c = .code := by
        rcases hEnd with rfl | rfl
        · simp [afterLiteral, hBackslash]
        · simp [afterLiteral]
      rw [List.singleton_append, blankFrom_literal_cons, hCode]
      rfl
  | opened =>
      obtain rfl : text = [] := by simpa using hClosed
      rfl
  | backslash =>
      obtain rfl : text = [] := by simpa using hClosed
      rfl
  | escape c _ ih =>
      have hEscaped : afterLiteral quote false '\\' = .literal quote true := rfl
      have hPassed : afterLiteral quote true c = .literal quote false := rfl
      rw [List.cons_append, List.cons_append, blankFrom_literal_cons, hEscaped,
        blankFrom_literal_cons, hPassed, ih hClosed, Blanked.append_append, Blanked.append_append,
        byteCount_cons, byteCount_cons, ← Nat.add_assoc, ← Nat.add_assoc]
      rfl
  | @cons closed body c hc hDiffers hNewline _ ih =>
      have hStays : afterLiteral quote false c = .literal quote false := by
        simp [afterLiteral, hc, hDiffers, hNewline]
      rw [List.cons_append, blankFrom_literal_cons, hStays, ih hClosed, Blanked.append_append,
        byteCount_cons, Nat.add_assoc, List.singleton_append]

/-- The rest of a line in a comment is blanked in one piece. -/
theorem blankFrom_lineComment (hBody : '\n' ∉ body) :
    blankFrom .lineComment offset (body ++ text) =
      (blankFrom .lineComment (offset + byteCount body) text).append (body.flatMap blankOut) := by
  induction body generalizing offset with
  | nil => rfl
  | cons c body ih =>
      simp only [List.mem_cons, not_or] at hBody
      have hNewline : (c == '\n') = false := by simpa using Ne.symm hBody.1
      rw [List.cons_append, blankFrom_lineComment_cons, hNewline, if_neg Bool.false_ne_true,
        ih hBody.2, Blanked.append_append, byteCount_cons, Nat.add_assoc, List.flatMap_cons]

/-- A line comment ends before its newline, which is code. -/
theorem blankFrom_lineEnd (h : ∀ c, text.head? = some c → c = '\n') :
    blankFrom .lineComment offset text = blankFrom .code offset text := by
  cases text with
  | nil => rfl
  | cons c rest =>
      obtain rfl : c = '\n' := h c rfl
      have hCode : blankFrom .code offset ('\n' :: rest) = _ := blankFrom_code rfl (by simp)
      rw [hCode, blankFrom_lineComment_cons]
      rfl

/-- A text in which no closer occurs does not begin with one, provided that
none is completed by what follows. -/
theorem not_closes_of_cons {behind : List Char} (h : ¬['*', '/'] <:+: c :: body)
    (hHead : behind.head? ≠ some '/') :
    ∀ rest, c = '*' → body ++ behind = '/' :: rest → False := by
  rintro rest rfl hRest
  cases body with
  | nil => exact hHead (by rw [List.nil_append] at hRest; rw [hRest]; rfl)
  | cons d tail =>
      obtain ⟨rfl, -⟩ := List.cons.inj hRest
      exact h ((List.prefix_append ['*', '/'] tail).isInfix)

/-- A comment that is never closed is blanked to the end of the source and
may be a doc nevertheless. -/
theorem blankFrom_openComment {read : List Char} (hBody : ¬['*', '/'] <:+: body) :
    blankFrom (.blockComment read) offset body =
      ⟨body.flatMap blankOut,
        (docComment? (offset + byteCount body) (body.reverse ++ read)).toList⟩ := by
  induction body generalizing offset read with
  | nil => rfl
  | cons c body ih =>
      have hNot := @not_closes_of_cons body c [] hBody (by simp)
      have hLater : ¬['*', '/'] <:+: body :=
        fun h => hBody (h.trans (List.suffix_cons c body).isInfix)
      rw [blankFrom_blockComment_cons, ih hLater]
      · simp [Blanked.append, Nat.add_assoc]
      · simpa using hNot

/-- A block comment is blanked as a whole, and its text is what its doc is
taken from. -/
theorem blankFrom_blockComment {read : List Char} (hBody : ¬['*', '/'] <:+: body) :
    blankFrom (.blockComment read) offset (body ++ '*' :: '/' :: text) =
      ((blankFrom .code (offset + byteCount body + 2) text).document
        (docComment? (offset + byteCount body + 2) (body.reverse ++ read))).append
        (body.flatMap blankOut ++ [' ', ' ']) := by
  induction body generalizing offset read with
  | nil => rfl
  | cons c body ih =>
      have hNot := @not_closes_of_cons body c ('*' :: '/' :: text) hBody (by simp)
      have hLater : ¬['*', '/'] <:+: body :=
        fun h => hBody (h.trans (List.suffix_cons c body).isInfix)
      rw [List.cons_append, blankFrom_blockComment_cons, ih hLater, Blanked.append_append]
      · simp [Blanked.append, Nat.add_assoc]
      · exact hNot

/-- Blanking keeps code and literals and blanks each character of a
comment. -/
theorem Layout.text_blankFrom {stretches : List Stretch} (h : Layout stretches) :
    (blankFrom .code offset (textOf stretches)).text = cleanedOf stretches := by
  induction h generalizing offset with
  | nil => rfl
  | code hQuote hSlash _ ih =>
      rw [textOf_cons, List.singleton_append, blankFrom_code hQuote hSlash, Blanked.append_text, ih]
      rfl
  | @literal quote closed body rest hQuote hBody hClosed _ ih =>
      have hEnd : closed = true ∨ textOf rest = [] := hClosed.imp id fun h => by rw [h]; rfl
      rw [textOf_cons, List.cons_append, blankFrom_quote hQuote, blankFrom_literal hQuote hBody hEnd,
        Blanked.append_text, Blanked.append_text, ih]
      rfl
  | lineComment hBody hRest _ ih =>
      rw [textOf_cons, List.cons_append, List.cons_append, blankFrom_lineOpener,
        blankFrom_lineComment hBody, blankFrom_lineEnd hRest, Blanked.append_text,
        Blanked.append_text, ih]
      rfl
  | @blockComment body rest hBody _ ih =>
      have hText : textOf (⟨'/' :: '*' :: (body ++ ['*', '/']), true⟩ :: rest) =
          '/' :: '*' :: (body ++ '*' :: '/' :: textOf rest) := by simp
      have hCleaned : cleanedOf (⟨'/' :: '*' :: (body ++ ['*', '/']), true⟩ :: rest) =
          [' ', ' '] ++ (body.flatMap blankOut ++ [' ', ' '] ++ cleanedOf rest) := by
        rw [cleanedOf_cons, Stretch.cleaned, if_pos rfl, List.flatMap_cons, List.flatMap_cons,
          List.flatMap_append]
        rfl
      rw [hText, hCleaned, blankFrom_blockOpener, blankFrom_blockComment hBody, Blanked.append_text,
        Blanked.append_text, Blanked.document, ih]
  | openComment hBody =>
      rw [textOf_cons, textOf_nil, List.append_nil, blankFrom_blockOpener,
        blankFrom_openComment hBody,
        Blanked.append_text, cleanedOf_cons]
      exact (List.append_nil _).symm

/-! ### Doc comments among the stretches -/

/-- The doc comment that a stretch is when it begins at that offset. An open
comment has no `*/` at its end. -/
def Stretch.doc? (s : Stretch) (offset : Nat) : Option DocComment :=
  match s.isComment, s.text with
  | true, '/' :: '*' :: body =>
      docComment? (offset + byteCount s.text) ((before? ['*', '/'] body).getD body).reverse
  | _, _ => none

/-- The doc comments among stretches of which the first begins at that
offset. -/
def docsFrom : Nat → List Stretch → List DocComment
  | _, [] => []
  | offset, s :: rest => (s.doc? offset).toList ++ docsFrom (offset + byteCount s.text) rest

/-- A comment is a doc exactly if a second star follows the opener. -/
theorem docComment?_eq_some_iff {stop : Nat} {reversed : List Char} {doc : DocComment} :
    docComment? stop reversed = some doc ↔
      ∃ body, reversed.reverse = '*' :: body ∧ doc = ⟨stop, summary? body⟩ := by
  unfold docComment?
  split
  · next body hBody =>
      rw [hBody, Option.some.injEq]
      exact ⟨fun h => ⟨body, rfl, h.symm⟩, fun ⟨_, hSame, hDoc⟩ => by cases hSame; exact hDoc.symm⟩
  · next hNone => exact ⟨nofun, fun ⟨body, hBody, _⟩ => absurd hBody (hNone body)⟩

namespace Stretch

/-- The doc of a stretch is that which the scanner records where the comment
is closed. -/
theorem doc?_blockComment (body : List Char) (offset : Nat) :
    doc? ⟨'/' :: '*' :: (body ++ ['*', '/']), true⟩ offset =
      docComment? (offset + byteCount ('/' :: '*' :: (body ++ ['*', '/']))) body.reverse := by
  have hBefore : before? ['*', '/'] (body ++ ['*', '/']) = some body := before?_eq_some_iff.mpr rfl
  simp only [doc?, hBefore, Option.getD_some]

theorem doc?_openComment (hBody : ¬['*', '/'] <:+: body) (offset : Nat) :
    doc? ⟨'/' :: '*' :: body, true⟩ offset =
      docComment? (offset + byteCount ('/' :: '*' :: body)) body.reverse := by
  have hBefore : before? ['*', '/'] body = none := by
    rw [Option.eq_none_iff_forall_not_mem]
    intro front hFront
    exact hBody ⟨front, [], by rw [before?_eq_some_iff.mp hFront, List.append_nil]⟩
  simp only [doc?, hBefore, Option.getD_none]

/-- A doc comment stops where its stretch does. -/
theorem stop_of_doc? {s : Stretch} {doc : DocComment} (h : s.doc? offset = some doc) :
    doc.stop = offset + byteCount s.text ∧ s.text ≠ [] := by
  unfold doc? at h
  split at h
  · next hText =>
      obtain ⟨body, -, rfl⟩ := docComment?_eq_some_iff.mp h
      exact ⟨rfl, by rw [hText]; exact List.cons_ne_nil _ _⟩
  · cases h

end Stretch

/-- The doc comments that are found are those among the stretches, each
where its stretch ends. -/
theorem Layout.docs_blankFrom {stretches : List Stretch} (h : Layout stretches) :
    (blankFrom .code offset (textOf stretches)).docs = docsFrom offset stretches := by
  have hSlash : '/'.utf8Size = 1 := rfl
  have hStar : '*'.utf8Size = 1 := rfl
  induction h generalizing offset with
  | nil => rfl
  | code hQuote hSlash _ ih =>
      rw [textOf_cons, List.singleton_append, blankFrom_code hQuote hSlash, Blanked.append_docs, ih]
      rfl
  | @literal quote closed body rest hQuote hBody hClosed _ ih =>
      have hEnd : closed = true ∨ textOf rest = [] := hClosed.imp id fun h => by rw [h]; rfl
      rw [textOf_cons, List.cons_append, blankFrom_quote hQuote,
        blankFrom_literal hQuote hBody hEnd, Blanked.append_docs, Blanked.append_docs, ih,
        Nat.add_assoc]
      rfl
  | @lineComment body rest hBody hRest _ ih =>
      have hCount : offset + 2 + byteCount body = offset + byteCount ('/' :: '/' :: body) := by
        simp only [byteCount_cons, hSlash]
        omega
      rw [textOf_cons, List.cons_append, List.cons_append, blankFrom_lineOpener,
        blankFrom_lineComment hBody, blankFrom_lineEnd hRest, Blanked.append_docs,
        Blanked.append_docs, ih, hCount]
      rfl
  | @blockComment body rest hBody _ ih =>
      have hText : textOf (⟨'/' :: '*' :: (body ++ ['*', '/']), true⟩ :: rest) =
          '/' :: '*' :: (body ++ '*' :: '/' :: textOf rest) := by simp
      have hCount : offset + 2 + byteCount body + 2 =
          offset + byteCount ('/' :: '*' :: (body ++ ['*', '/'])) := by
        simp only [byteCount_cons, byteCount_append, byteCount_nil, hSlash, hStar]
        omega
      rw [hText, blankFrom_blockOpener, blankFrom_blockComment hBody, Blanked.append_docs,
        Blanked.append_docs, Blanked.document, ih, hCount, docsFrom, Stretch.doc?_blockComment,
        List.append_nil]
  | @openComment body hBody =>
      have hCount : offset + 2 + byteCount body = offset + byteCount ('/' :: '*' :: body) := by
        simp only [byteCount_cons, hSlash, hStar]
        omega
      rw [textOf_cons, textOf_nil, List.append_nil, blankFrom_blockOpener,
        blankFrom_openComment hBody, Blanked.append_docs, hCount, docsFrom,
        Stretch.doc?_openComment hBody, List.append_nil]
      exact (List.append_nil _).symm

/-- Every doc comes from one stretch, and its offset is that of the text in
front of the stretch and the stretch itself. -/
theorem mem_docsFrom_iff {stretches : List Stretch} {doc : DocComment} :
    doc ∈ docsFrom offset stretches ↔
      ∃ before s after, stretches = before ++ s :: after ∧
        s.doc? (offset + byteCount (textOf before)) = some doc := by
  induction stretches generalizing offset with
  | nil => simp [docsFrom]
  | cons s rest ih =>
      rw [docsFrom, List.mem_append, Option.mem_toList, ih]
      constructor
      · rintro (hHere | ⟨before, later, after, rfl, hLater⟩)
        · exact ⟨[], s, rest, rfl, hHere⟩
        · refine ⟨s :: before, later, after, rfl, ?_⟩
          rwa [textOf_cons, byteCount_append, ← Nat.add_assoc]
      · rintro ⟨before, later, after, hSplit, hDoc⟩
        cases before with
        | nil =>
            cases hSplit
            exact Or.inl hDoc
        | cons first before =>
            cases hSplit
            rw [textOf_cons, byteCount_append, ← Nat.add_assoc] at hDoc
            exact Or.inr ⟨before, later, after, rfl, hDoc⟩

theorem Layout.of_cons {s : Stretch} {rest : List Stretch} (h : Layout (s :: rest)) :
    Layout rest := by
  cases h with
  | code _ _ later => exact later
  | literal _ _ _ later => exact later
  | lineComment _ _ later => exact later
  | blockComment _ later => exact later
  | openComment => exact .nil

/-- What stands behind some stretches of a layout is laid out as well. -/
theorem Layout.of_append {before rest : List Stretch} (h : Layout (before ++ rest)) :
    Layout rest := by
  induction before with
  | nil => exact h
  | cons s before ih => exact ih h.of_cons

/-- A doc comment is closed, unless it reaches to the end of the source. -/
theorem Layout.exists_body_of_doc? {s : Stretch} {rest : List Stretch} {doc : DocComment}
    (h : Layout (s :: rest)) (hDoc : s.doc? offset = some doc) :
    ∃ body, ¬['*', '/'] <:+: '*' :: body ∧ s.isComment = true ∧ doc.summary = summary? body ∧
      (s.text = "/**".toList ++ (body ++ "*/".toList) ∨
        (s.text = "/**".toList ++ body ∧ rest = [])) := by
  cases h with
  | code => cases hDoc
  | literal => cases hDoc
  | lineComment => cases hDoc
  | @blockComment body _ hBody _ =>
      rw [Stretch.doc?_blockComment, docComment?_eq_some_iff, List.reverse_reverse] at hDoc
      obtain ⟨inner, rfl, rfl⟩ := hDoc
      exact ⟨inner, hBody, rfl, rfl, Or.inl rfl⟩
  | @openComment body hBody =>
      rw [Stretch.doc?_openComment hBody, docComment?_eq_some_iff, List.reverse_reverse] at hDoc
      obtain ⟨inner, rfl, rfl⟩ := hDoc
      exact ⟨inner, hBody, rfl, rfl, Or.inr ⟨rfl, rfl⟩⟩

theorem docsFrom_eq_nil {stretches : List Stretch} (h : ∀ s ∈ stretches, s.isComment = false) :
    docsFrom offset stretches = [] := by
  rw [List.eq_nil_iff_forall_not_mem]
  intro doc hDoc
  obtain ⟨before, s, after, rfl, hHere⟩ := mem_docsFrom_iff.mp hDoc
  simp [Stretch.doc?, h s (by simp)] at hHere

/-! ### What is left holds no comments -/

theorem eq_of_mem_blankOut {d : Char} (h : d ∈ blankOut c) : d = '\n' ∨ d = ' ' := by
  unfold blankOut at h
  split at h
  · next hNewline =>
      rw [List.mem_singleton.mp h]
      exact Or.inl (by simpa using hNewline)
  · exact Or.inr (List.eq_of_mem_replicate h)

theorem isBlank_of_mem_cleaned {s : Stretch} (hComment : s.isComment = true) (h : c ∈ s.cleaned) :
    isBlank c = true := by
  rw [Stretch.cleaned, if_pos hComment] at h
  obtain ⟨d, -, hd⟩ := List.mem_flatMap.mp h
  rcases eq_of_mem_blankOut hd with rfl | rfl <;> decide

namespace Stretch

/-- The stretches that blanking leaves of one. -/
def blanked (s : Stretch) : List Stretch :=
  if s.isComment then s.cleaned.map fun c => ⟨[c], false⟩ else [s]

/-- Blanked stretches have the cleaned text for their text, so that blanking
may be repeated. -/
theorem textOf_blanked (s : Stretch) : textOf s.blanked = s.cleaned := by
  unfold blanked
  split
  · simp [textOf, List.flatMap_map]
  · next hCode => simp [cleaned, hCode]

end Stretch

def blankedOf (stretches : List Stretch) : List Stretch :=
  stretches.flatMap Stretch.blanked

theorem textOf_blankedOf (stretches : List Stretch) :
    textOf (blankedOf stretches) = cleanedOf stretches := by
  induction stretches with
  | nil => rfl
  | cons s rest ih =>
      rw [cleanedOf_cons, ← ih, ← Stretch.textOf_blanked s]
      simp [textOf, blankedOf]

theorem isComment_of_mem_blankedOf {stretches : List Stretch} {s : Stretch}
    (h : s ∈ blankedOf stretches) : s.isComment = false := by
  obtain ⟨whole, -, hs⟩ := List.mem_flatMap.mp h
  unfold Stretch.blanked at hs
  split at hs
  · obtain ⟨c, -, rfl⟩ := List.mem_map.mp hs
    rfl
  · next hCode =>
      rw [List.mem_singleton.mp hs]
      simpa using hCode

theorem cleanedOf_eq_textOf {stretches : List Stretch}
    (h : ∀ s ∈ stretches, s.isComment = false) : cleanedOf stretches = textOf stretches := by
  induction stretches with
  | nil => rfl
  | cons s rest ih =>
      simp only [List.forall_mem_cons] at h
      rw [cleanedOf_cons, textOf_cons, ih h.2, Stretch.cleaned, h.1, if_neg Bool.false_ne_true]

/-- Blanking puts no slash and no star anywhere. -/
theorem Layout.head?_cleanedOf {stretches : List Stretch} (h : Layout stretches) {d : Char}
    (hd : d = '/' ∨ d = '*') (hHead : (cleanedOf stretches).head? = some d) :
    (textOf stretches).head? = some d := by
  cases h with
  | nil => cases hHead
  | code => exact hHead
  | literal => exact hHead
  | lineComment =>
      cases hHead
      simp at hd
  | blockComment =>
      cases hHead
      simp at hd
  | openComment =>
      cases hHead
      simp at hd

/-- Blanks may be put in front of a layout, each as a stretch of code, since
they open nothing. -/
theorem Layout.blanks_append {blanks : List Char} {rest : List Stretch} (h : Layout rest)
    (hBlanks : ∀ c ∈ blanks, c = '\n' ∨ c = ' ') :
    Layout ((blanks.map fun c => ⟨[c], false⟩) ++ rest) := by
  induction blanks with
  | nil => exact h
  | cons c blanks ih =>
      simp only [List.forall_mem_cons] at hBlanks
      refine .code ?_ ?_ (ih hBlanks.2)
      · rcases hBlanks.1 with rfl | rfl <;> rfl
      · rcases hBlanks.1 with rfl | rfl <;> simp

/-- What blanking leaves of a layout is a layout again. It has no comments
left, so that blanking once more changes nothing. -/
theorem Layout.blankedOf {stretches : List Stretch} (h : Layout stretches) :
    Layout (blankedOf stretches) := by
  have hComment (s : Stretch) (hs : s.isComment = true) {rest : List Stretch} (hRest : Layout rest) :
      Layout (s.blanked ++ rest) := by
    rw [Stretch.blanked, if_pos hs, Stretch.cleaned, if_pos hs]
    refine hRest.blanks_append fun c hc => ?_
    obtain ⟨d, -, hd⟩ := List.mem_flatMap.mp hc
    exact eq_of_mem_blankOut hd
  induction h with
  | nil => exact .nil
  | @code c rest hQuote hSlash hRest ih =>
      refine .code hQuote (fun hc => ?_) ih
      show (textOf (Declaration.blankedOf rest)).head? ≠ _ ∧
        (textOf (Declaration.blankedOf rest)).head? ≠ _
      rw [textOf_blankedOf]
      exact ⟨fun h => (hSlash hc).1 (hRest.head?_cleanedOf (Or.inl rfl) h),
        fun h => (hSlash hc).2 (hRest.head?_cleanedOf (Or.inr rfl) h)⟩
  | literal hQuote hBody hClosed _ ih =>
      refine .literal hQuote hBody (hClosed.imp id fun h => ?_) ih
      rw [h]
      rfl
  | lineComment _ _ _ ih => exact hComment _ rfl ih
  | blockComment _ _ ih => exact hComment _ rfl ih
  | openComment => exact hComment _ rfl .nil

/-- Blanking the blanked text changes nothing and finds no doc comment.
Reading may start from either of the two. -/
theorem blankComments_blanked (source : List Char) :
    blankComments (blankComments source).text = ⟨(blankComments source).text, []⟩ := by
  obtain ⟨stretches, hLayout, rfl⟩ := exists_layout source
  have hText : (blankComments (textOf stretches)).text = textOf (blankedOf stretches) := by
    rw [textOf_blankedOf]
    exact hLayout.text_blankFrom
  have hNone : ∀ s ∈ blankedOf stretches, s.isComment = false :=
    fun s hs => isComment_of_mem_blankedOf hs
  have hAgain : (blankComments (textOf (blankedOf stretches))).text = _ :=
    hLayout.blankedOf.text_blankFrom
  have hDocs : (blankComments (textOf (blankedOf stretches))).docs = [] :=
    hLayout.blankedOf.docs_blankFrom.trans (docsFrom_eq_nil hNone)
  rw [cleanedOf_eq_textOf hNone] at hAgain
  rw [hText]
  calc
    blankComments (textOf (blankedOf stretches)) =
        ⟨(blankComments (textOf (blankedOf stretches))).text,
          (blankComments (textOf (blankedOf stretches))).docs⟩ := rfl
    _ = ⟨textOf (blankedOf stretches), []⟩ := by rw [hAgain, hDocs]

end ScriptBindings.Declaration
