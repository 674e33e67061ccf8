import Mathlib.Data.List.Basic
import Mathlib.Data.Option.Basic
import ScriptBindings.Data.TomlPrinter
import ScriptBindings.Proofs.Data.JsonStrings

/-! TOML strings and keys read back. The printer picks one of four kinds of
strings; each is read back where its rules allow the content, and the kind
that is picked always does. -/
namespace ScriptBindings.Toml

variable {text content rest e : List Char} {c : Char} {fuel quotes limit : Nat} {long : Bool}

/-! ### Escapes -/

/-- What stands behind a backslash for a character, and joins no lines. -/
def Escapes (e : List Char) (c : Char) : Prop :=
  ∀ more, escape? (e ++ more) = some (c, more) ∧ lineJoin? (e ++ more) = none

theorem charOfCode?_toNat (c : Char) : charOfCode? c.toNat = some c := by
  have hValid : c.toNat.isValidChar := c.valid
  rw [charOfCode?, dif_pos hValid]
  exact congrArg some (Char.ext (UInt32.toNat_inj.mp rfl))

theorem escapes_codeEscape (upper : Bool) (h : c.toNat < 0x100) :
    Escapes (Json.codeEscape upper c) c := by
  have hValue := Json.hexValue?_hexDigits upper h
  intro more
  refine ⟨?_, rfl⟩
  simp [Json.codeEscape, escape?, escape?.digitsEscape?, hValue, charOfCode?_toNat]

theorem escapes_quote : Escapes ['"'] '"' := fun _ => ⟨rfl, rfl⟩

/-- What needs no code may stand in a string as it is, except for the end of
a line. -/
theorem isPrintable_of_not_needsCode (h : needsCode c = false) (hLine : c ≠ '\n') :
    isPrintable c = true := by
  by_cases hTab : c = '\t'
  · subst hTab
    rfl
  · simpa [needsCode, isPrintable, hTab, hLine] using h

/-- A character is written as an escape or as itself. In the second case it
may stand in a string, or it is a line end in a long one. -/
theorem escapeChar_cases (long : Bool) (c : Char) :
    (∃ e, escapeChar long c = '\\' :: e ∧ Escapes e c) ∨
      (escapeChar long c = [c] ∧ c ≠ '\\' ∧ c ≠ '\r' ∧
        (isPrintable c = true ∨ long = true ∧ c = '\n')) := by
  unfold escapeChar
  split_ifs with hBack hTab hLine hLong hFeed hReturn hBackslash hCode
  · obtain rfl := eq_of_beq hBack
    exact Or.inl ⟨['b'], rfl, fun _ => ⟨rfl, rfl⟩⟩
  · obtain rfl := eq_of_beq hTab
    exact Or.inl ⟨['t'], rfl, fun _ => ⟨rfl, rfl⟩⟩
  · obtain rfl := eq_of_beq hLine
    exact Or.inr ⟨rfl, by decide, by decide, Or.inr ⟨hLong, rfl⟩⟩
  · obtain rfl := eq_of_beq hLine
    exact Or.inl ⟨['n'], rfl, fun _ => ⟨rfl, rfl⟩⟩
  · obtain rfl := eq_of_beq hFeed
    exact Or.inl ⟨['f'], rfl, fun _ => ⟨rfl, rfl⟩⟩
  · obtain rfl := eq_of_beq hReturn
    exact Or.inl ⟨['r'], rfl, fun _ => ⟨rfl, rfl⟩⟩
  · obtain rfl := eq_of_beq hBackslash
    exact Or.inl ⟨['\\'], rfl, fun _ => ⟨rfl, rfl⟩⟩
  · refine Or.inl ⟨_, rfl, escapes_codeEscape true ?_⟩
    simp only [needsCode, Bool.or_eq_true, Bool.and_eq_true, decide_eq_true_eq, beq_iff_eq] at hCode
    omega
  · rw [beq_iff_eq] at hLine hReturn hBackslash
    exact Or.inr ⟨rfl, hBackslash, hReturn,
      Or.inl (isPrintable_of_not_needsCode (Bool.eq_false_iff.mpr hCode) hLine)⟩

theorem escapeFrom_cons (h : c ≠ '"') (content : List Char) :
    escapeFrom long limit quotes (c :: content) =
      escapeChar long c ++ escapeFrom long limit 0 content := by
  rw [escapeFrom]
  exact h

/-- What is written first is no quote, if the limit of quotes is reached or
the content begins with another character. A line end is only written for a
newline. -/
theorem exists_escapeFrom_cons (long : Bool) {limit quotes : Nat} (h : limit ≤ quotes ∨ c ≠ '"')
    (content : List Char) :
    ∃ first behind, escapeFrom long limit quotes (c :: content) = first :: behind ∧
      first ≠ '"' ∧ first ≠ '\r' ∧ (first = '\n' → c = '\n') := by
  by_cases hQuote : c = '"'
  · subst hQuote
    have hLimit : ¬quotes < limit := by simpa using h
    rw [escapeFrom, if_neg hLimit]
    exact ⟨_, _, rfl, by decide, by decide, by decide⟩
  · rw [escapeFrom_cons hQuote]
    rcases escapeChar_cases long c with ⟨e, hText, -⟩ | ⟨hText, -, hReturn, -⟩
    · exact ⟨_, _, by rw [hText, List.cons_append], by decide, by decide, fun h => by cases h⟩
    · exact ⟨_, _, by rw [hText, List.singleton_append], hQuote, hReturn, id⟩

/-- Escaping never shortens a text, so that the fuel taken from the text
suffices. -/
theorem length_le_escapeFrom (long : Bool) (limit : Nat) (content : List Char) :
    ∀ quotes, content.length ≤ (escapeFrom long limit quotes content).length := by
  induction content with
  | nil => exact fun quotes => Nat.zero_le _
  | cons c content ih =>
      intro quotes
      by_cases hQuote : c = '"'
      · subst hQuote
        rw [escapeFrom]
        split
        · simpa using ih (quotes + 1)
        · have := ih 0
          simp only [List.length_cons]
          omega
      · have hContent := ih 0
        rw [escapeFrom_cons hQuote]
        rcases escapeChar_cases long c with ⟨e, hText, -⟩ | ⟨hText, -⟩ <;>
          simp only [hText, List.length_append, List.length_cons] <;> omega

/-! ### Strings on one line -/

theorem basicWithin_escape (h : Escapes e c) (fuel : Nat) (more : List Char) :
    basicWithin (fuel + 1) ('\\' :: (e ++ more)) = consContent c (basicWithin fuel more) := by
  rw [basicWithin, (h more).1]
  rfl

theorem basicWithin_printable (hQuote : c ≠ '"') (hBackslash : c ≠ '\\')
    (h : isPrintable c = true) (more : List Char) :
    basicWithin (fuel + 1) (c :: more) = consContent c (basicWithin fuel more) := by
  rw [basicWithin, if_pos h]
  · exact hQuote
  · exact hBackslash

/-- Escaped content is read back up to the quote that ends it. -/
theorem basicWithin_escapeFrom (content rest : List Char) :
    ∀ fuel, content.length < fuel →
      basicWithin fuel (escapeFrom false 0 0 content ++ '"' :: rest) = some (content, rest) := by
  induction content with
  | nil =>
      intro fuel hFuel
      obtain ⟨fuel, rfl⟩ := Nat.exists_eq_add_of_le' (show 1 ≤ fuel by omega)
      rfl
  | cons c content ih =>
      intro fuel hFuel
      obtain ⟨fuel, rfl⟩ := Nat.exists_eq_add_of_le' (show 1 ≤ fuel by omega)
      have hContent := ih fuel (by simpa using hFuel)
      by_cases hQuote : c = '"'
      · subst hQuote
        have hEscape := basicWithin_escape escapes_quote fuel
          (escapeFrom false 0 0 content ++ '"' :: rest)
        rw [hContent] at hEscape
        exact hEscape
      · rw [escapeFrom_cons hQuote, List.append_assoc]
        rcases escapeChar_cases false c with ⟨e, hText, hEscape⟩ | ⟨hText, hBackslash, -, hPrint⟩
        · rw [hText, List.cons_append, basicWithin_escape hEscape, hContent]
          rfl
        · rw [hText, List.singleton_append, basicWithin_printable hQuote hBackslash
            (by simpa using hPrint), hContent]
          rfl

theorem basic?_escapeFrom (content rest : List Char) :
    basic? (escapeFrom false 0 0 content ++ '"' :: rest) = some (content, rest) := by
  refine basicWithin_escapeFrom content rest _ ?_
  have := length_le_escapeFrom false 0 content 0
  simp only [List.length_append]
  omega

/-- A literal string has no escapes and is read up to its quote. Content
that needs any is not written so. -/
theorem literal?_append (hCodes : ∀ c ∈ content, needsCode c = false)
    (hLines : '\n' ∉ content) (hQuotes : '\'' ∉ content) :
    literal? (content ++ '\'' :: rest) = some (content, rest) := by
  induction content with
  | nil => rfl
  | cons c content ih =>
      rw [List.forall_mem_cons] at hCodes
      rw [List.mem_cons, not_or] at hLines hQuotes
      rw [List.cons_append, literal?,
        if_pos (isPrintable_of_not_needsCode hCodes.1 (Ne.symm hLines.1)),
        ih hCodes.2 hLines.2 hQuotes.2]
      · rfl
      · exact Ne.symm hQuotes.1

/-! ### Strings over several lines -/

variable {quote : Char}

/-- The quotes that end a string do not take in what follows. -/
theorem closingQuotes_of_head (h : rest.head? ≠ some quote) :
    closingQuotes quote rest = ([], rest) := by
  cases rest with
  | nil => rfl
  | cons a more =>
      have hQuote : (a == quote) = false := beq_false_of_ne fun hSame => h (by simp [hSame])
      cases more with
      | nil => simp [closingQuotes, hQuote]
      | cons b more => simp [closingQuotes, hQuote]

/-- At the end of a long string one or two more quotes may belong to its
content. -/
theorem closingQuotes_one (h : rest.head? ≠ some quote) :
    closingQuotes quote (quote :: rest) = ([quote], rest) := by
  cases rest with
  | nil => simp [closingQuotes]
  | cons b more =>
      have hQuote : (b == quote) = false := beq_false_of_ne fun hSame => h (by simp [hSame])
      simp [closingQuotes, hQuote]

/-- An escape is read as its character over several lines too. -/
theorem longBasicWithin_escape (h : Escapes e c) (fuel : Nat) (more : List Char) :
    longBasicWithin (fuel + 1) ('\\' :: (e ++ more)) =
      consContent c (longBasicWithin fuel more) := by
  rw [longBasicWithin, (h more).1, (h more).2]
  rfl

/-- Every other character is read as itself, a line end as well, as long as
no three quotes come together. -/
theorem longBasicWithin_char {more : List Char} (hBackslash : c ≠ '\\') (hReturn : c ≠ '\r')
    (h : isPrintable c = true ∨ c = '\n')
    (hQuotes : ∀ behind, c = '"' → more ≠ '"' :: '"' :: behind) :
    longBasicWithin (fuel + 1) (c :: more) = consContent c (longBasicWithin fuel more) := by
  rw [longBasicWithin, if_pos (by simpa using h)]
  · exact fun behind hSame hMore => hQuotes behind hSame hMore
  · exact hBackslash
  · exact fun _ hSame _ => hReturn hSame

/-- Behind one quote that stands for itself, two more only follow as the
last two of the content, or as the closing ones. -/
theorem escapeFrom_ne_quotes {behind more : List Char} (hNil : content ≠ [])
    (h : 0 < quotes) (hLast : content ≠ ['"'] ∨ 2 ≤ quotes) :
    escapeFrom true 2 quotes content ++ more ≠ '"' :: '"' :: behind := by
  obtain ⟨c, content, rfl⟩ := List.exists_cons_of_ne_nil hNil
  intro hSame
  by_cases hFirst : 2 ≤ quotes ∨ c ≠ '"'
  · obtain ⟨first, later, hText, hQuote, -⟩ := exists_escapeFrom_cons true hFirst content
    rw [hText] at hSame
    exact hQuote (List.cons.inj hSame).1
  · obtain ⟨hFew, rfl⟩ : quotes < 2 ∧ c = '"' := by simpa using hFirst
    obtain rfl : quotes = 1 := by omega
    cases content with
    | nil => simp at hLast
    | cons d content =>
        obtain ⟨first, later, hText, hQuote, -⟩ :=
          exists_escapeFrom_cons true (Or.inl (Nat.le_refl 2)) content
        rw [escapeFrom, if_pos hFew, hText] at hSame
        exact hQuote (List.cons.inj (List.cons.inj hSame).2).1

/-- Escaped content over several lines is read back. At most two quotes in a
row are left without an escape. -/
theorem longBasicWithin_escapeFrom (hRest : rest.head? ≠ some '"') (content : List Char) :
    ∀ quotes fuel, content.length < fuel →
      longBasicWithin fuel (escapeFrom true 2 quotes content ++ '"' :: '"' :: '"' :: rest) =
        some (content, rest) := by
  induction content with
  | nil =>
      intro quotes fuel hFuel
      obtain ⟨fuel, rfl⟩ := Nat.exists_eq_add_of_le' (show 1 ≤ fuel by omega)
      rw [escapeFrom, List.nil_append, longBasicWithin, closingQuotes_of_head hRest]
  | cons c content ih =>
      intro quotes fuel hFuel
      obtain ⟨fuel, rfl⟩ := Nat.exists_eq_add_of_le' (show 1 ≤ fuel by omega)
      have hContent := fun quotes => ih quotes fuel (by simpa using hFuel)
      by_cases hQuote : c = '"'
      · subst hQuote
        rw [escapeFrom]
        split
        · next hFew =>
            -- The last one or two quotes are taken with the closing ones.
            by_cases hNil : content = []
            · subst hNil
              rw [escapeFrom, List.singleton_append, longBasicWithin, closingQuotes_one hRest]
            · by_cases hOne : content = ['"'] ∧ quotes = 0
              · obtain ⟨rfl, rfl⟩ := hOne
                rfl
              · have hLast : content ≠ ['"'] ∨ 2 ≤ quotes + 1 := by
                  by_cases hZero : quotes = 0
                  · exact Or.inl fun hSame => hOne ⟨hSame, hZero⟩
                  · exact Or.inr (by omega)
                rw [List.cons_append, longBasicWithin_char (by decide) (by decide)
                  (Or.inl (by decide)) fun behind _ => escapeFrom_ne_quotes hNil (by omega) hLast,
                  hContent]
                rfl
        · have hEscape := longBasicWithin_escape escapes_quote fuel
            (escapeFrom true 2 0 content ++ '"' :: '"' :: '"' :: rest)
          rw [hContent] at hEscape
          exact hEscape
      · rw [escapeFrom_cons hQuote, List.append_assoc]
        rcases escapeChar_cases true c with
          ⟨e, hText, hEscape⟩ | ⟨hText, hBackslash, hReturn, hPrint⟩
        · rw [hText, List.cons_append, longBasicWithin_escape hEscape, hContent]
          rfl
        · rw [hText, List.singleton_append, longBasicWithin_char hBackslash hReturn
            (by simpa using hPrint) fun _ hSame => absurd hSame hQuote, hContent]
          rfl

/-- The longest run so far, and the one that the next character may go on
with. -/
def runStep (c : Char) (runs : Nat × Nat) (d : Char) : Nat × Nat :=
  let next := if d == c then runs.2 + 1 else 0
  (max runs.1 next, next)

theorem longestRun_eq (c : Char) (text : List Char) :
    longestRun c text = (text.foldl (runStep c) (0, 0)).1 := rfl

theorem le_foldl_runStep (c : Char) (text : List Char) :
    ∀ runs, runs.1 ≤ (text.foldl (runStep c) runs).1 := by
  induction text with
  | nil => exact fun runs => Nat.le_refl _
  | cons d text ih => exact fun runs => Nat.le_trans (Nat.le_max_left ..) (ih (runStep c runs d))

theorem not_mem_of_longestRun (h : longestRun c text = 0) : c ∉ text := by
  intro hMem
  obtain ⟨before, behind, rfl⟩ := List.append_of_mem hMem
  rw [longestRun_eq, List.foldl_append, List.foldl_cons] at h
  have hRun := le_foldl_runStep c behind (runStep c (before.foldl (runStep c) (0, 0)) c)
  rw [h] at hRun
  simp [runStep] at hRun

/-- Three quotes together are a run of three, whatever ran before them. -/
theorem three_le_foldl_runStep (c : Char) (text : List Char) (runs : Nat × Nat) :
    3 ≤ ((c :: c :: c :: text).foldl (runStep c) runs).1 := by
  have hThird : 3 ≤ (runStep c (runStep c (runStep c runs c) c) c).1 := by
    simp only [runStep, beq_self_eq_true, if_true]
    omega
  exact Nat.le_trans hThird (le_foldl_runStep c text _)

theorem longLiteral?_char {more : List Char} (hCode : needsCode c = false)
    (hQuotes : ∀ behind, c = '\'' → more ≠ '\'' :: '\'' :: behind) :
    longLiteral? (c :: more) = consContent c (longLiteral? more) := by
  have hPrint : isPrintable c = true ∨ c = '\n' := by
    by_cases hLine : c = '\n'
    · exact Or.inr hLine
    · exact Or.inl (isPrintable_of_not_needsCode hCode hLine)
  rw [longLiteral?, if_pos (by simpa using hPrint)]
  · exact fun behind hSame hMore => hQuotes behind hSame hMore
  · rintro behind rfl
    cases hCode

/-- A long literal is read back if no three of its quotes stand in a row. -/
theorem longLiteral?_append (hRest : rest.head? ≠ some '\'') (content : List Char)
    (hCodes : ∀ c ∈ content, needsCode c = false) :
    ∀ runs, (content.foldl (runStep '\'') runs).1 ≤ 2 →
      longLiteral? (content ++ '\'' :: '\'' :: '\'' :: rest) = some (content, rest) := by
  induction content with
  | nil =>
      intro runs _
      rw [List.nil_append, longLiteral?, closingQuotes_of_head hRest]
  | cons c content ih =>
      intro runs hRuns
      rw [List.forall_mem_cons] at hCodes
      by_cases hOne : c :: content = ['\'']
      · rw [hOne, List.singleton_append, longLiteral?, closingQuotes_one hRest]
      · by_cases hTwo : c :: content = ['\'', '\'']
        · rw [hTwo]
          rfl
        · have hQuotes : ∀ behind, c = '\'' →
              content ++ '\'' :: '\'' :: '\'' :: rest ≠ '\'' :: '\'' :: behind := by
            rintro behind rfl hSame
            match content with
            | [] => exact hOne rfl
            | [d] => exact hTwo (by rw [(List.cons.inj hSame).1])
            | d :: next :: later =>
                obtain ⟨rfl, hMore⟩ := List.cons.inj hSame
                obtain ⟨rfl, -⟩ := List.cons.inj hMore
                have hThree := three_le_foldl_runStep '\'' later runs
                omega
          rw [List.cons_append, longLiteral?_char hCodes.1 hQuotes, ih hCodes.2 _ hRuns]
          rfl

/-! ### The kind that is picked -/

/-- The texts that a kind of strings can hold. -/
def StringKind.Suits (kind : StringKind) (content : List Char) : Prop :=
  match kind with
  | .basic | .longBasic => True
  | .literal =>
      (∀ c ∈ content, needsCode c = false) ∧ '\n' ∉ content ∧ '\'' ∉ content
  | .longLiteral => (∀ c ∈ content, needsCode c = false) ∧ longestRun '\'' content ≤ 2

/-- The kind that is chosen for a string suits it. -/
theorem suits_of (content : List Char) : (StringKind.of content).Suits content := by
  unfold StringKind.of
  dsimp only
  split_ifs with hBasic hLiteral hLongBasic hLongLiteral hLine
  · trivial
  · simp only [Bool.and_eq_true, Bool.not_eq_true', beq_iff_eq] at hLiteral
    obtain ⟨⟨hCodes, hSingle⟩, hLines⟩ := hLiteral
    refine ⟨by simpa using hCodes, ?_, not_mem_of_longestRun hSingle⟩
    simpa using hLines
  · trivial
  · simp only [Bool.and_eq_true, Bool.not_eq_true', decide_eq_true_eq] at hLongLiteral
    exact ⟨by simpa using hLongLiteral.1, hLongLiteral.2⟩
  · trivial
  · trivial

/-- And so does the one chosen for a key, for which the long kinds are not
allowed. -/
theorem suits_ofKey (content : List Char) : (StringKind.ofKey content).Suits content := by
  unfold StringKind.ofKey
  dsimp only
  split_ifs with hBasic hLiteral
  · trivial
  · simp only [Bool.and_eq_true, Bool.not_eq_true', List.any_eq_false, Bool.or_eq_true,
      beq_iff_eq, not_or] at hLiteral
    obtain ⟨hCodes, hQuotes⟩ := hLiteral
    refine ⟨fun c hc => Bool.eq_false_iff.mpr (hCodes c hc).1,
      fun hMem => (hCodes _ hMem).2 rfl, by simpa using hQuotes⟩
  · trivial

theorem ofKey_cases (content : List Char) :
    StringKind.ofKey content = .basic ∨ StringKind.ofKey content = .literal := by
  unfold StringKind.ofKey
  dsimp only
  split_ifs <;> simp

theorem lineEnd?_cons (hLine : c ≠ '\n') (hReturn : c ≠ '\r') (more : List Char) :
    lineEnd? (c :: more) = none := by
  unfold lineEnd?
  split <;> simp_all

/-- Behind the opening quotes of a string over several lines a newline of
its own is dropped, so that one of the content is not. -/
theorem dropLineEnd_opening {more : List Char} (h : ∀ first behind, more = first :: behind →
      first ≠ '\r' ∧ (first = '\n' → '\n' ∈ content)) :
    dropLineEnd ((if content.contains '\n' then ['\n'] else []) ++ more) = more := by
  split
  · rfl
  · next hLines =>
      rw [List.nil_append, dropLineEnd]
      cases more with
      | nil => rfl
      | cons first behind =>
          obtain ⟨hReturn, hLine⟩ := h first behind rfl
          have hOther : first ≠ '\n' := fun hSame => hLines (by simpa using hLine hSame)
          rw [lineEnd?_cons hOther hReturn]
          rfl

/-- A string of the basic kind is read back, whatever its content. -/
theorem string?_basic (content : List Char) (hRest : rest.head? ≠ some '"') :
    string? (StringKind.basic.write content ++ rest) = some (content, rest) := by
  have hBasic := basic?_escapeFrom content rest
  simp only [StringKind.write, List.cons_append, List.append_assoc, List.nil_append]
  rw [string?, hBasic]
  intro behind hSame
  cases content with
  | nil =>
      rw [escapeFrom, List.nil_append] at hSame
      exact hRest (by rw [(List.cons.inj hSame).2, List.head?_cons])
  | cons c content =>
      obtain ⟨first, later, hText, hQuote, -⟩ :=
        exists_escapeFrom_cons false (Or.inl (Nat.le_refl 0)) content
      rw [hText] at hSame
      exact hQuote (List.cons.inj hSame).1

theorem string?_literal (h : StringKind.literal.Suits content) (hRest : rest.head? ≠ some '\'') :
    string? (StringKind.literal.write content ++ rest) = some (content, rest) := by
  obtain ⟨hCodes, hLines, hQuotes⟩ := h
  simp only [StringKind.write, List.cons_append, List.append_assoc, List.nil_append]
  rw [string?, literal?_append hCodes hLines hQuotes]
  intro behind hSame
  cases content with
  | nil => exact hRest (by rw [(List.cons.inj hSame).2, List.head?_cons])
  | cons c content => exact hQuotes (by rw [(List.cons.inj hSame).1]; exact List.mem_cons_self)

/-- A string over several lines is read back, the first line end being
dropped. -/
theorem string?_longBasic (content : List Char) (hRest : rest.head? ≠ some '"') :
    string? (StringKind.longBasic.write content ++ rest) = some (content, rest) := by
  have hOpening : dropLineEnd ((if content.contains '\n' then ['\n'] else []) ++
      (escapeFrom true 2 0 content ++ '"' :: '"' :: '"' :: rest)) =
        escapeFrom true 2 0 content ++ '"' :: '"' :: '"' :: rest := by
    refine dropLineEnd_opening fun first behind hText => ?_
    cases content with
    | nil =>
        obtain ⟨rfl, -⟩ := List.cons.inj hText
        exact ⟨by decide, fun h => by cases h⟩
    | cons c content =>
        by_cases hQuote : c = '"'
        · subst hQuote
          obtain ⟨rfl, -⟩ := List.cons.inj hText
          exact ⟨by decide, fun h => by cases h⟩
        · obtain ⟨head, later, hHead, -, hReturn, hLine⟩ :=
            exists_escapeFrom_cons true (Or.inr hQuote) content
          rw [hHead] at hText
          obtain ⟨rfl, -⟩ := List.cons.inj hText
          exact ⟨hReturn, fun hSame => hLine hSame ▸ List.mem_cons_self⟩
  simp only [StringKind.write, List.cons_append, List.append_assoc, List.nil_append]
  rw [string?, hOpening, longBasic?, longBasicWithin_escapeFrom hRest]
  have := length_le_escapeFrom true 2 content 0
  simp only [List.length_append]
  omega

/-- A literal over several lines is read back where this kind suits. -/
theorem string?_longLiteral (h : StringKind.longLiteral.Suits content)
    (hRest : rest.head? ≠ some '\'') :
    string? (StringKind.longLiteral.write content ++ rest) = some (content, rest) := by
  obtain ⟨hCodes, hRuns⟩ := h
  have hOpening : dropLineEnd ((if content.contains '\n' then ['\n'] else []) ++
      (content ++ '\'' :: '\'' :: '\'' :: rest)) = content ++ '\'' :: '\'' :: '\'' :: rest := by
    refine dropLineEnd_opening fun first behind hText => ?_
    cases content with
    | nil =>
        obtain ⟨rfl, -⟩ := List.cons.inj hText
        exact ⟨by decide, fun h => by cases h⟩
    | cons c content =>
        obtain ⟨rfl, -⟩ := List.cons.inj hText
        refine ⟨?_, fun hLine => hLine ▸ List.mem_cons_self⟩
        rintro rfl
        cases hCodes '\r' List.mem_cons_self
  simp only [StringKind.write, List.cons_append, List.append_assoc, List.nil_append]
  rw [string?, hOpening, longLiteral?_append hRest content hCodes (0, 0) hRuns]

/-- A text that is written as any kind of string that suits it is read
back. -/
theorem string?_write {kind : StringKind} (h : kind.Suits content)
    (hDouble : rest.head? ≠ some '"') (hSingle : rest.head? ≠ some '\'') :
    string? (kind.write content ++ rest) = some (content, rest) := by
  cases kind with
  | basic => exact string?_basic content hDouble
  | literal => exact string?_literal h hSingle
  | longBasic => exact string?_longBasic content hDouble
  | longLiteral => exact string?_longLiteral h hSingle

/-- A string is read back in the kind that was chosen for it. -/
theorem string?_quote (value : String) (hDouble : rest.head? ≠ some '"')
    (hSingle : rest.head? ≠ some '\'') :
    string? ((Toml.quote value).toList ++ rest) = some (value.toList, rest) := by
  rw [Toml.quote, String.toList_ofList]
  exact string?_write (suits_of value.toList) hDouble hSingle

theorem exists_write_cons (kind : StringKind) (content : List Char) :
    ∃ first behind, kind.write content = first :: behind ∧ (first = '"' ∨ first = '\'') := by
  cases kind <;> exact ⟨_, _, rfl, by simp⟩

/-! ### Keys -/

theorem exists_quoteKey_cons (key : String) :
    ∃ first behind, (quoteKey key).toList = first :: behind ∧
      (first = '"' ∨ first = '\'' ∨ isBareKeyChar first = true) := by
  unfold quoteKey
  dsimp only
  split
  · next hBare =>
      simp only [Bool.and_eq_true, Bool.not_eq_true', List.all_eq_true] at hBare
      cases hText : key.toList with
      | nil => simp [hText] at hBare
      | cons first behind =>
          exact ⟨first, behind, rfl, Or.inr (Or.inr (hBare.2 first (by simp [hText])))⟩
  · rw [String.toList_ofList]
    obtain ⟨first, behind, hText, hFirst⟩ :=
      exists_write_cons (StringKind.ofKey key.toList) key.toList
    exact ⟨first, behind, hText, hFirst.imp_right Or.inl⟩

/-- A bare key is read up to the first character that cannot belong to
one. -/
theorem key?_bare {key : List Char} (hNil : key ≠ []) (hKey : ∀ c ∈ key, isBareKeyChar c = true)
    (hRest : ∀ c, rest.head? = some c → isBareKeyChar c = false) :
    key? (key ++ rest) = some (String.ofList key, rest) := by
  have hEnd : rest.takeWhile isBareKeyChar = [] ∧ rest.dropWhile isBareKeyChar = rest := by
    cases rest with
    | nil => exact ⟨rfl, rfl⟩
    | cons c behind =>
        have hStop := hRest c rfl
        simp [hStop]
  obtain ⟨first, behind, rfl⟩ := List.exists_cons_of_ne_nil hNil
  have hFirst := hKey first List.mem_cons_self
  rw [key?, List.takeWhile_append_of_pos hKey, List.dropWhile_append_of_pos hKey, hEnd.1, hEnd.2,
    List.append_nil]
  · rintro more hSame
    rw [(List.cons.inj hSame).1] at hFirst
    cases hFirst
  · rintro more hSame
    rw [(List.cons.inj hSame).1] at hFirst
    cases hFirst

theorem key?_quoteKey (key : String)
    (hRest : ∀ c, rest.head? = some c → isBareKeyChar c = false) :
    key? ((quoteKey key).toList ++ rest) = some (key, rest) := by
  unfold quoteKey
  dsimp only
  split
  · next hBare =>
      simp only [Bool.and_eq_true, Bool.not_eq_true', List.all_eq_true] at hBare
      rw [key?_bare (by simpa using hBare.1) hBare.2 hRest, String.ofList_toList]
  · have hSuits := suits_ofKey key.toList
    rw [String.toList_ofList]
    rcases ofKey_cases key.toList with hKind | hKind
    · rw [hKind, StringKind.write, List.append_assoc, List.cons_append, List.singleton_append, key?,
        basic?_escapeFrom]
      simp
    · rw [hKind] at hSuits ⊢
      obtain ⟨hCodes, hLines, hQuotes⟩ := hSuits
      rw [StringKind.write, List.append_assoc, List.cons_append, List.singleton_append, key?,
        literal?_append hCodes hLines hQuotes]
      simp

end ScriptBindings.Toml
