import ScriptBindings.Proofs.Text.Naming

/-! Texts that are laid out differently: they have the same characters but
for their blanks, and blanks stand in the same places. A cut at a character
that is no blank finds the same place in both, so that the parts are laid
out differently again. -/
namespace ScriptBindings.Text

/-- The texts differ in nothing but how many blanks stand where there are
blanks, and which. -/
inductive Relaid : List Char → List Char → Prop where
  | nil : Relaid [] []
  | char {c : Char} {first second : List Char} (hChar : isBlank c = false)
      (hRest : Relaid first second) : Relaid (c :: first) (c :: second)
  | blanks {front other first second : List Char} (hNil : front ≠ []) (hOtherNil : other ≠ [])
      (hBlank : ∀ c ∈ front, isBlank c = true) (hOther : ∀ c ∈ other, isBlank c = true)
      (hRest : Relaid first second) : Relaid (front ++ first) (other ++ second)

variable {text first second front back : List Char} {c : Char}

namespace Relaid

theorem symm (h : Relaid first second) : Relaid second first := by
  induction h with
  | nil => exact .nil
  | char hChar _ ih => exact .char hChar ih
  | blanks hNil hOtherNil hBlank hOther _ ih => exact .blanks hOtherNil hNil hOther hBlank ih

theorem append {third fourth : List Char} (h : Relaid first second) (hRest : Relaid third fourth) :
    Relaid (first ++ third) (second ++ fourth) := by
  induction h with
  | nil => exact hRest
  | char hChar _ ih => exact .char hChar ih
  | blanks hNil hOtherNil hBlank hOther _ ih =>
      rw [List.append_assoc, List.append_assoc]
      exact .blanks hNil hOtherNil hBlank hOther ih

/-- Any blanks may take the place of any others, as long as there are some
on both sides. -/
theorem of_blanks {other : List Char} (hNil : front ≠ []) (hOtherNil : other ≠ [])
    (hBlank : ∀ c ∈ front, isBlank c = true) (hOther : ∀ c ∈ other, isBlank c = true) :
    Relaid front other := by
  simpa using Relaid.blanks hNil hOtherNil hBlank hOther .nil

theorem reverse (h : Relaid first second) : Relaid first.reverse second.reverse := by
  induction h with
  | nil => exact .nil
  | char hChar _ ih =>
      rw [List.reverse_cons, List.reverse_cons]
      exact ih.append (.char hChar .nil)
  | blanks hNil hOtherNil hBlank hOther _ ih =>
      rw [List.reverse_append, List.reverse_append]
      exact ih.append (of_blanks (by simpa using hNil) (by simpa using hOtherNil)
        (by simpa using hBlank) (by simpa using hOther))

theorem eq_nil (h : Relaid [] second) : second = [] := by
  generalize hText : ([] : List Char) = first at h
  cases h with
  | nil => rfl
  | char => cases hText
  | blanks hNil => exact absurd (List.append_eq_nil_iff.mp hText.symm).1 hNil

theorem ne_nil (h : Relaid first second) (hNil : first ≠ []) : second ≠ [] := by
  rintro rfl
  exact hNil h.symm.eq_nil

/-- A character that is no blank stands in the other text between the other
layouts of what stands around it. -/
theorem exists_split (h : Relaid first second) (hChar : isBlank c = false)
    (hText : first = front ++ c :: back) :
    ∃ otherFront otherBack, second = otherFront ++ c :: otherBack ∧
      Relaid front otherFront ∧ Relaid back otherBack := by
  induction h generalizing front with
  | nil => simp at hText
  | @char d rest other hd hRest ih =>
      cases front with
      | nil =>
          obtain ⟨rfl, rfl⟩ := List.cons.inj hText
          exact ⟨[], other, rfl, .nil, hRest⟩
      | cons d tail =>
          obtain ⟨rfl, hTail⟩ := List.cons.inj hText
          obtain ⟨otherFront, otherBack, rfl, hFront, hBack⟩ := ih hTail
          exact ⟨d :: otherFront, otherBack, rfl, .char hd hFront, hBack⟩
  | @blanks blanks others rest other hNil hOtherNil hBlank hOther _ ih =>
      rcases List.append_eq_append_iff.mp hText with ⟨tail, rfl, hTail⟩ | ⟨tail, hFront, hTail⟩
      · obtain ⟨otherFront, otherBack, rfl, hFront, hBack⟩ := ih hTail
        refine ⟨others ++ otherFront, otherBack, by simp, ?_, hBack⟩
        exact .blanks hNil hOtherNil hBlank hOther hFront
      · cases tail with
        | nil =>
            obtain ⟨otherFront, otherBack, rfl, hEmpty, hBack⟩ :=
              ih (show rest = [] ++ c :: back from hTail.symm)
            rw [List.append_nil] at hFront
            subst hFront
            rw [hEmpty.eq_nil]
            exact ⟨others, otherBack, rfl, of_blanks hNil hOtherNil hBlank hOther, hBack⟩
        | cons d tail =>
            -- The character would be one of the blanks.
            obtain ⟨rfl, -⟩ := List.cons.inj hTail
            rw [hBlank c (by simp [hFront])] at hChar
            cases hChar

/-- A visible character is kept, and what follows it is laid out anew by
itself. -/
theorem exists_cons (h : Relaid (c :: back) second) (hChar : isBlank c = false) :
    ∃ otherBack, second = c :: otherBack ∧ Relaid back otherBack := by
  obtain ⟨otherFront, otherBack, rfl, hFront, hBack⟩ :=
    h.exists_split hChar (show c :: back = [] ++ c :: back from rfl)
  rw [hFront.eq_nil]
  exact ⟨otherBack, rfl, hBack⟩

/-- Characters that are no blanks stay next to each other. -/
theorem exists_append {key : List Char} (h : Relaid (key ++ back) second)
    (hKey : ∀ c ∈ key, isBlank c = false) :
    ∃ otherBack, second = key ++ otherBack ∧ Relaid back otherBack := by
  induction key generalizing second with
  | nil => exact ⟨second, rfl, h⟩
  | cons c rest ih =>
      obtain ⟨hChar, hRest⟩ := List.forall_mem_cons.mp hKey
      obtain ⟨other, rfl, hOther⟩ := exists_cons h hChar
      obtain ⟨otherBack, rfl, hBack⟩ := ih hOther hRest
      exact ⟨otherBack, rfl, hBack⟩

/-- A word without blanks is kept as it is, so that a text may be cut around
it in both layouts. -/
theorem exists_split_append {key : List Char} (h : Relaid (front ++ (key ++ back)) second)
    (hNil : key ≠ []) (hKey : ∀ c ∈ key, isBlank c = false) :
    ∃ otherFront otherBack, second = otherFront ++ (key ++ otherBack) ∧
      Relaid front otherFront ∧ Relaid back otherBack := by
  obtain ⟨c, rest, rfl⟩ := List.exists_cons_of_ne_nil hNil
  obtain ⟨hChar, hRest⟩ := List.forall_mem_cons.mp hKey
  obtain ⟨otherFront, other, rfl, hFront, hOther⟩ := h.exists_split hChar rfl
  obtain ⟨otherBack, rfl, hBack⟩ := exists_append hOther hRest
  exact ⟨otherFront, otherBack, rfl, hFront, hBack⟩

theorem mem_iff (h : Relaid first second) (hChar : isBlank c = false) : c ∈ first ↔ c ∈ second := by
  constructor
  · intro hMem
    obtain ⟨front, back, hText⟩ := List.append_of_mem hMem
    obtain ⟨otherFront, otherBack, rfl, -⟩ := h.exists_split hChar hText
    simp
  · intro hMem
    obtain ⟨front, back, hText⟩ := List.append_of_mem hMem
    obtain ⟨otherFront, otherBack, rfl, -⟩ := h.symm.exists_split hChar hText
    simp

theorem head?_eq_some (h : Relaid first second) (hChar : isBlank c = false)
    (hHead : first.head? = some c) : second.head? = some c := by
  obtain ⟨back, rfl⟩ := List.head?_eq_some_iff.mp hHead
  obtain ⟨otherBack, rfl, -⟩ := h.exists_cons hChar
  rfl

theorem getLast?_eq_some (h : Relaid first second) (hChar : isBlank c = false)
    (hLast : first.getLast? = some c) : second.getLast? = some c := by
  obtain ⟨front, rfl⟩ := List.getLast?_eq_some_iff.mp hLast
  obtain ⟨otherFront, otherBack, rfl, -, hBack⟩ := h.exists_split hChar rfl
  rw [hBack.eq_nil, List.getLast?_concat]

/-- Without blanks there is one layout. Names and operators are therefore
the same in all layouts. -/
theorem eq_of_no_blank (h : Relaid first second) (hFirst : ∀ c ∈ first, isBlank c = false) :
    first = second := by
  induction h with
  | nil => rfl
  | char _ _ ih => rw [ih (List.forall_mem_cons.mp hFirst).2]
  | @blanks front _ _ _ hNil _ hBlank _ _ _ =>
      obtain ⟨c, hMem⟩ := List.exists_mem_of_ne_nil front hNil
      have hNot := hFirst c (List.mem_append_left _ hMem)
      rw [hBlank c hMem] at hNot
      cases hNot

/-- Trimming does away with the blanks in front, however many there are. -/
theorem trimStart (h : Relaid first second) : Relaid (trimStart first) (trimStart second) := by
  induction h with
  | nil => exact .nil
  | @char c _ _ hChar hRest _ =>
      have hHead {rest : List Char} : Text.trimStart (c :: rest) = c :: rest :=
        trimStart_eq_self (by rintro d ⟨⟩; exact hChar)
      rw [hHead, hHead]
      exact .char hChar hRest
  | blanks _ _ hBlank hOther _ ih =>
      rw [trimStart_append_of_blank hBlank, trimStart_append_of_blank hOther]
      exact ih

/-- And with those at the end, by reading the text backwards. -/
theorem trimEnd (h : Relaid first second) : Relaid (trimEnd first) (trimEnd second) :=
  h.reverse.trimStart.reverse

/-- So texts that are laid out alike are alike after trimming. -/
theorem trim (h : Relaid first second) : Relaid (trim first) (trim second) :=
  h.trimStart.trimEnd

theorem trimmed (h : Relaid first second) (hTrimmed : Trimmed first) : Trimmed second where
  head := by
    intro c hHead
    cases hFirst : first.head? with
    | none =>
        rw [List.head?_eq_none_iff.mp hFirst] at h
        simp [h.eq_nil] at hHead
    | some d =>
        have hSame := h.head?_eq_some (hTrimmed.head d hFirst) hFirst
        rw [hHead] at hSame
        cases hSame
        exact hTrimmed.head c hFirst
  last := by
    intro c hLast
    cases hFirst : first.getLast? with
    | none =>
        rw [List.getLast?_eq_none_iff.mp hFirst] at h
        simp [h.eq_nil] at hLast
    | some d =>
        have hSame := h.getLast?_eq_some (hTrimmed.last d hFirst) hFirst
        rw [hLast] at hSame
        cases hSame
        exact hTrimmed.last c hFirst

end Relaid

/-! ### Words -/

/-- A blank divides the words of a text. One more blank beside it divides
nothing further. -/
theorem words_append_blank (hChar : isBlank c = true) (front back : List Char) :
    words (front ++ c :: back) = words front ++ words back := by
  simp [words, List.splitOnP_append_cons, hChar]

theorem words_blank (hChar : isBlank c = true) (rest : List Char) :
    words (c :: rest) = words rest := by
  simpa [words] using words_append_blank hChar [] rest

theorem words_append_of_blank (hFront : ∀ c ∈ front, isBlank c = true) :
    words (front ++ text) = words text := by
  induction front with
  | nil => rfl
  | cons c rest ih =>
      obtain ⟨hChar, hRest⟩ := List.forall_mem_cons.mp hFront
      rw [List.cons_append, words_blank hChar, ih hRest]

theorem words_eq_nil (h : ∀ c ∈ text, isBlank c = true) : words text = [] := by
  have hNone := @words_append_of_blank [] text h
  rwa [List.append_nil] at hNone

theorem words_append_blanks (hBack : ∀ c ∈ back, isBlank c = true) :
    words (text ++ back) = words text := by
  cases back with
  | nil => rw [List.append_nil]
  | cons c rest =>
      obtain ⟨hChar, hRest⟩ := List.forall_mem_cons.mp hBack
      rw [words_append_blank hChar, words_eq_nil hRest, List.append_nil]

/-- Blanks at the ends are dropped by normalising in any case. -/
theorem normalise_trim (text : List Char) : normalise (trim text) = normalise text := by
  obtain ⟨front, back, hText, hFront, hBack⟩ := exists_trim text
  have hWords : words text = words (trim text) := by
    conv_lhs => rw [hText]
    rw [words_append_of_blank hFront, words_append_blanks hBack]
  rw [normalise, normalise, hWords]

theorem normalise_blank (hChar : isBlank c = true) (rest : List Char) :
    normalise (c :: rest) = normalise rest := by
  rw [normalise, words_blank hChar, normalise]

theorem normalise_singleton (hChar : isBlank c = false) : normalise [c] = [c] := by
  simp [normalise, words, List.splitOnP_cons_eq_if_modifyHead, hChar]

/-- A character before a blank is a word by itself. -/
theorem normalise_before_blank {d : Char} {rest : List Char} (hChar : isBlank c = false)
    (hNext : isBlank d = true) (hNil : normalise (d :: rest) ≠ []) :
    normalise (c :: d :: rest) = c :: ' ' :: normalise (d :: rest) := by
  have hWords : words (c :: d :: rest) = [c] :: words (d :: rest) := by
    simp [words, List.splitOnP_cons_eq_if_modifyHead, hChar, hNext]
  cases hLater : words (d :: rest) with
  | nil => exact absurd (by rw [normalise, hLater]; rfl) hNil
  | cons word later =>
      rw [normalise, hWords, normalise, hLater, List.intercalate_cons_cons]
      rfl

/-- A character before another one belongs to the same word. -/
theorem normalise_before_char {d : Char} (hChar : isBlank c = false) (hNext : isBlank d = false)
    (rest : List Char) : normalise (c :: d :: rest) = c :: normalise (d :: rest) := by
  obtain ⟨first, later, hPieces⟩ := List.exists_cons_of_ne_nil (List.splitOnP_ne_nil isBlank rest)
  have hWords : words (d :: rest) = (d :: first) :: later.filter (!·.isEmpty) := by
    simp [words, List.splitOnP_cons_eq_if_modifyHead, hNext, hPieces]
  have hAll : words (c :: d :: rest) = (c :: d :: first) :: later.filter (!·.isEmpty) := by
    simp [words, List.splitOnP_cons_eq_if_modifyHead, hChar, hNext, hPieces]
  rw [normalise, hAll, normalise, hWords]
  cases later.filter (!·.isEmpty) <;> rfl

/-- Up to the blanks it begins with, a text is laid out as its words, if it
does not end with a blank. -/
theorem exists_relaid_normalise (hLast : ∀ c, text.getLast? = some c → isBlank c = false) :
    ∃ front rest, text = front ++ rest ∧ (∀ c ∈ front, isBlank c = true) ∧
      (∀ c, rest.head? = some c → isBlank c = false) ∧ Relaid rest (normalise text) := by
  induction text with
  | nil => exact ⟨[], [], rfl, by simp, by simp, .nil⟩
  | cons c tail ih =>
      cases tail with
      | nil =>
          have hChar := hLast c rfl
          refine ⟨[], [c], rfl, by simp, by simpa using hChar, ?_⟩
          rw [normalise_singleton hChar]
          exact .char hChar .nil
      | cons d more =>
          rw [List.getLast?_cons_cons] at hLast
          obtain ⟨front, rest, hText, hFront, hHead, hRest⟩ := ih hLast
          cases hChar : isBlank c with
          | true =>
              rw [normalise_blank hChar, hText]
              rw [hText] at hRest
              exact ⟨c :: front, rest, rfl, List.forall_mem_cons.mpr ⟨hChar, hFront⟩, hHead, hRest⟩
          | false =>
              refine ⟨[], c :: d :: more, rfl, by simp, by simpa using hChar, ?_⟩
              cases hFrontText : front with
              | nil =>
                  obtain rfl : d :: more = rest := by simpa [hFrontText] using hText
                  rw [normalise_before_char hChar (hHead d rfl)]
                  exact .char hChar hRest
              | cons e blanks =>
                  rw [hFrontText] at hText hFront
                  obtain ⟨rfl, hMore⟩ := List.cons.inj hText
                  -- The last character is no blank, so that words follow the blanks.
                  have hNil : rest ≠ [] := by
                    rintro rfl
                    have hAll : ∀ e ∈ d :: more, isBlank e = true := by
                      rwa [hText, List.append_nil]
                    have hNot := hLast _ (List.getLast?_eq_some_getLast (List.cons_ne_nil d more))
                    rw [hAll _ (List.getLast_mem _)] at hNot
                    cases hNot
                  rw [normalise_before_blank hChar (hFront d List.mem_cons_self)
                    (hRest.ne_nil hNil)]
                  have hJoint : Relaid ((d :: blanks) ++ rest) ([' '] ++ normalise (d :: more)) :=
                    .blanks (List.cons_ne_nil _ _) (by simp) hFront (by simp; rfl) hRest
                  rw [hText]
                  exact .char hChar (hText ▸ hJoint)

/-- A trimmed text is a layout of its normal form, so that what does not
depend on layout may be shown for normal forms. -/
theorem Trimmed.relaid_normalise (h : Trimmed text) : Relaid text (normalise text) := by
  obtain ⟨front, rest, hText, hFront, -, hRest⟩ := exists_relaid_normalise h.last
  cases front with
  | nil =>
      rw [List.nil_append] at hText
      exact hText ▸ hRest
  | cons c tail =>
      have hChar := h.head c (by rw [hText]; rfl)
      rw [hFront c List.mem_cons_self] at hChar
      cases hChar

/-- Layout does not change the words. -/
theorem Relaid.words_eq (h : Relaid first second) : words first = words second := by
  suffices hPieces : ∃ word later other, first.splitOnP isBlank = word :: later ∧
      second.splitOnP isBlank = word :: other ∧
      later.filter (!·.isEmpty) = other.filter (!·.isEmpty) by
    obtain ⟨word, later, other, hFirst, hSecond, hSame⟩ := hPieces
    simp only [words, hFirst, hSecond, List.filter_cons, hSame]
  induction h with
  | nil => exact ⟨[], [], [], rfl, rfl, rfl⟩
  | @char c _ _ hChar _ ih =>
      obtain ⟨word, later, other, hFirst, hSecond, hSame⟩ := ih
      refine ⟨c :: word, later, other, ?_, ?_, hSame⟩
      · simp [List.splitOnP_cons_eq_if_modifyHead, hChar, hFirst]
      · simp [List.splitOnP_cons_eq_if_modifyHead, hChar, hSecond]
  | @blanks front others first second hNil hOtherNil hBlank hOther _ ih =>
      obtain ⟨word, later, other, hFirst, hSecond, hSame⟩ := ih
      have hWords : words first = words second := by
        simp only [words, hFirst, hSecond, List.filter_cons, hSame]
      obtain ⟨c, front, rfl⟩ := List.exists_cons_of_ne_nil hNil
      obtain ⟨d, others, rfl⟩ := List.exists_cons_of_ne_nil hOtherNil
      obtain ⟨hc, hFront⟩ := List.forall_mem_cons.mp hBlank
      obtain ⟨hd, hOthers⟩ := List.forall_mem_cons.mp hOther
      refine ⟨[], (front ++ first).splitOnP isBlank, (others ++ second).splitOnP isBlank, ?_, ?_, ?_⟩
      · simp [List.splitOnP_cons_eq_if_modifyHead, hc]
      · simp [List.splitOnP_cons_eq_if_modifyHead, hd]
      · exact (words_append_of_blank hFront).trans
          (hWords.trans (words_append_of_blank hOthers).symm)

/-- Layouts of the same text have one normal form, which is what decides
whether two texts are the same but for their blanks. -/
theorem Relaid.normalise_eq (h : Relaid first second) : normalise first = normalise second := by
  rw [normalise, normalise, h.words_eq]

end ScriptBindings.Text
