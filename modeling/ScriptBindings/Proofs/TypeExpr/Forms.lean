import ScriptBindings.Proofs.Bracket.Joining
import ScriptBindings.Proofs.TypeExpr.Walks

/-! The outermost form of a text, told from how the text is made up, and how
texts that are made up of other texts are read. The form that puts something
around a text is the one that is found again, because none that is tried
before applies. -/
namespace ScriptBindings.TypeExpr

open Text Outcomes ScriptBindings.Bracket

variable {generics : List String} {text rest inside argument name : List Char} {word : String}

/-! ### Finding forms -/

/-- One pair of parentheses encloses the whole text. -/
theorem grouped?_eq_some_iff :
    grouped? text = .ok (some inside) ↔ text = '(' :: (inside ++ [')']) ∧ Balanced inside := by
  constructor
  · intro h
    obtain ⟨hHead, hGroup⟩ := grouped?_some h
    obtain ⟨rest, rfl⟩ := List.head?_eq_some_iff.mp hHead
    obtain ⟨closer, rfl, hCloser, hInside, -⟩ := group?_some rfl hGroup
    rw [Cursor.closing?_eq_round_iff.mp hCloser]
    exact ⟨rfl, hInside⟩
  · rintro ⟨rfl, hInside⟩
    have hGroup : group? ('(' :: (inside ++ [')'])) = .ok (some (inside, [])) :=
      group?_eq_some hInside (show opening? '(' = some .round from rfl) rfl (by simp)
    rw [grouped?, hGroup]
    rfl

/-- On balanced text the test for parentheses around the whole never fails.
It may find that the first parenthesis closes too soon. -/
theorem exists_grouped? (h : Balanced text) : ∃ found, grouped? text = .ok found := by
  cases hHead : text.head? == some '(' with
  | false => exact ⟨none, by rw [grouped?, hHead]; rfl⟩
  | true =>
      obtain ⟨rest, rfl⟩ := List.head?_eq_some_iff.mp (beq_iff_eq.mp hHead)
      obtain ⟨inside, after, hGroup⟩ := exists_group? h rfl
      rw [grouped?, hHead, if_pos rfl, hGroup]
      cases after with
      | nil => exact ⟨some inside, rfl⟩
      | cons c rest => exact ⟨none, rfl⟩

/-- A text that ends with another character than `)` is not in
parentheses. -/
theorem grouped?_eq_none (h : Balanced text) (hLast : text.getLast? ≠ some ')') :
    grouped? text = .ok none := by
  obtain ⟨found, hFound⟩ := exists_grouped? h
  cases found with
  | none => exact hFound
  | some inside =>
      rw [(grouped?_eq_some_iff.mp hFound).1, ← List.cons_append, List.getLast?_concat] at hLast
      exact absurd rfl hLast

/-- A dotted name stands before a pair of angle brackets that ends the
text. -/
theorem application?_eq_some_iff :
    application? text = .ok (some (name, argument)) ↔
      ∃ front, text = front ++ '<' :: (argument ++ ['>']) ∧ '<' ∉ front ∧ trimEnd front = name ∧
        (name.splitOn '.').all isName = true ∧ Balanced argument ∧
        argument.getLast? ≠ some '=' := by
  constructor
  · intro h
    obtain ⟨rfl, hName, hGroup⟩ := application?_some h
    have hText := List.takeWhile_append_dropWhile (p := (· != '<')) (l := text)
    have hFront : '<' ∉ text.takeWhile (· != '<') := fun hMem => by
      simpa using List.mem_takeWhile_imp hMem
    cases hRest : text.dropWhile (· != '<') with
    | nil =>
        rw [hRest] at hGroup
        cases hGroup
    | cons c rest =>
        have hHead := List.head?_dropWhile_not (· != '<') text
        rw [hRest] at hHead hGroup hText
        obtain rfl : c = '<' := by simpa using hHead
        obtain ⟨closer, rfl, hCloser, hArgument, hLast⟩ := group?_some rfl hGroup
        obtain rfl : closer = '>' := Cursor.closing?_eq_angle_iff.mp hCloser
        exact ⟨_, hText.symm, hFront, rfl, hName, hArgument, hLast rfl⟩
  · rintro ⟨front, rfl, hFront, rfl, hName, hArgument, hLast⟩
    have hAngle : ∀ c ∈ front, (c != '<') = true := fun c hc =>
      bne_iff_ne.mpr fun hSame => hFront (hSame ▸ hc)
    have hGroup : group? ('<' :: (argument ++ ['>'])) = .ok (some (argument, [])) :=
      group?_eq_some hArgument (show opening? '<' = some .angle from rfl) rfl (fun _ => hLast)
    unfold application?
    rw [List.takeWhile_append_of_pos hAngle, List.dropWhile_append_of_pos hAngle]
    simp [hName, hGroup]

theorem application?_eq_none (h : '<' ∉ text) : application? text = .ok none := by
  have hAll : text.dropWhile (· != '<') = [] :=
    List.dropWhile_eq_nil_iff.mpr fun c hc =>
      bne_iff_ne.mpr fun hSame : c = '<' => h (hSame ▸ hc)
  unfold application?
  rw [hAll]
  dsimp only
  split <;> rfl

/-- On balanced text the test for a name with an argument never fails
either, whatever stands behind the argument. -/
theorem exists_application? (h : Balanced text) : ∃ found, application? text = .ok found := by
  by_cases hAngle : '<' ∈ text
  · unfold application?
    dsimp only
    split
    · next hName =>
        obtain ⟨rest, hRest, hBalanced⟩ := exists_angle h hAngle hName
        obtain ⟨argument, after, hGroup⟩ := exists_group? hBalanced rfl
        rw [hRest, hGroup]
        cases after with
        | nil => exact ⟨_, rfl⟩
        | cons c rest => exact ⟨_, rfl⟩
    · exact ⟨none, rfl⟩
  · exact ⟨none, application?_eq_none hAngle⟩

/-- A word is not found in front because of what stands behind the text, if
that begins with a character that belongs to no word. -/
theorem afterWord?_append_eq_none {c : Char} (h : afterWord? word text = none)
    (hWord : isName word.toList = true) (hName : isNameChar c = false) (hBlank : isBlank c = false) :
    afterWord? word (text ++ c :: rest) = none := by
  cases hAfter : afterWord? word (text ++ c :: rest) with
  | none => rfl
  | some found =>
      obtain ⟨d, tail, hText, hChar, -⟩ := afterWord?_eq_some_iff.mp hAfter
      have hDiffers : c ≠ d := by
        rintro rfl
        rw [hChar] at hBlank
        cases hBlank
      rcases List.append_eq_append_iff.mp hText with ⟨more, hMore, hTail⟩ | ⟨more, rfl, hTail⟩
      · cases more with
        | nil => exact absurd (List.cons.inj hTail).1 hDiffers
        | cons e more =>
            obtain ⟨rfl, -⟩ := List.cons.inj hTail
            exact absurd (by simp [hMore]) (not_mem_of_isName hWord hName)
      · cases more with
        | nil => exact absurd (List.cons.inj hTail).1.symm hDiffers
        | cons e more =>
            obtain ⟨rfl, -⟩ := List.cons.inj hTail
            rw [afterWord?_eq_some_iff.mpr ⟨d, more, rfl, hChar, rfl⟩] at h
            cases h

theorem element?_eq_none (hLast : text.getLast? ≠ some ']') : element? text = none := by
  cases hElement : element? text with
  | none => rfl
  | some element =>
      rw [(element?_eq_some_iff.mp hElement).1] at hLast
      simp at hLast

/-- A member is read by its form alone, once the form is known. Its blanks
at the ends do not matter. -/
theorem parseMember_of_form {form : Form} (hTrimmed : Trimmed text)
    (hForm : Form.of text = .ok form) :
    parseMember generics text = readForm generics text form := by
  rw [parseMember_eq, hTrimmed.trim_eq, hForm]

/-! ### Reading texts made up of texts -/

/-- Parentheses around a whole text are recognised as such, since the first
is closed by the last. -/
theorem form_grouped (h : Balanced inside) :
    Form.of ('(' :: (inside ++ [')'])) = .ok (.grouped inside) :=
  Form.of_eq_ok_iff.mpr (.grouped (grouped?_eq_some_iff.mpr ⟨rfl, h⟩))

theorem parseMember_grouped (h : Balanced inside) :
    parseMember generics ('(' :: (inside ++ [')'])) = parse generics inside :=
  parseMember_of_form (trimmed_of_ends rfl rfl) (form_grouped h)

theorem trimmed_squares : Trimmed ['[', ']'] := by
  have hEnds : Trimmed ('[' :: ([] ++ [']'])) := trimmed_of_ends rfl rfl
  exact hEnds

/-- A text with the suffix is an array of what stands before, unless a
modifier in front takes all of it. -/
theorem form_array (h : Balanced (text ++ ['[', ']'])) (hTrimmed : Trimmed text) (hNil : text ≠ [])
    (hReadonly : afterWord? "readonly" text = none) (hKeyOf : afterWord? "keyof" text = none) :
    Form.of (text ++ ['[', ']']) = .ok (.array text) := by
  refine Form.of_eq_ok_iff.mpr (.array ?_ ?_ ?_ ?_)
  · exact grouped?_eq_none h (by simp)
  · exact afterWord?_append_eq_none hReadonly rfl rfl rfl
  · exact afterWord?_append_eq_none hKeyOf rfl rfl rfl
  · exact element?_eq_some_iff.mpr ⟨rfl, by rwa [hTrimmed.trim_eq]⟩

/-- So the element of an array is read as a member, and a union as element
needs its parentheses. -/
theorem parseMember_array (h : Balanced (text ++ ['[', ']'])) (hTrimmed : Trimmed text)
    (hNil : text ≠ []) (hReadonly : afterWord? "readonly" text = none)
    (hKeyOf : afterWord? "keyof" text = none) :
    parseMember generics (text ++ ['[', ']']) = (parseMember generics text).map .arrayOf :=
  parseMember_of_form (hTrimmed.append trimmed_squares hNil (by simp))
    (form_array h hTrimmed hNil hReadonly hKeyOf)

/-- A name before a pair of angle brackets is applied to what they
enclose. -/
theorem form_applied (hName : isName name = true) (h : Balanced argument)
    (hLast : argument.getLast? ≠ some '=') :
    Form.of (name ++ '<' :: (argument ++ ['>'])) = .ok (.applied name argument) := by
  have hEnd : (name ++ '<' :: (argument ++ ['>'])).getLast? = some '>' := by
    rw [List.getLast?_append_of_ne_nil _ (List.cons_ne_nil _ _), ← List.cons_append,
      List.getLast?_concat]
  have hGroup : Balanced ('<' :: (argument ++ ['>'])) := h.group rfl rfl (fun _ => hLast)
  have hNone (word : String) (hWord : isName word.toList = true) :
      afterWord? word (name ++ '<' :: (argument ++ ['>'])) = none :=
    afterWord?_append_eq_none (afterWord?_eq_none_of_isName hName) hWord rfl rfl
  refine Form.of_eq_ok_iff.mpr (.applied ?_ (hNone _ rfl) (hNone _ rfl) ?_ ?_)
  · exact grouped?_eq_none ((Balanced.plain_append_iff (isPlain_of_isName hName)).mpr hGroup)
      (by rw [hEnd]; decide)
  · exact element?_eq_none (by rw [hEnd]; decide)
  · refine application?_eq_some_iff.mpr ⟨name, rfl, not_mem_of_isName hName (by decide),
      trimEnd_eq_self (trimmed_of_isName hName).last, ?_, h, hLast⟩
    have hOne : name.splitOn '.' = [name] :=
      List.splitOnP_eq_singleton fun c hc => by
        simpa using fun hDot : c = '.' => not_mem_of_isName hName (by decide) (hDot ▸ hc)
    simpa [hOne] using hName

theorem trimmed_applied (hName : isName name = true) :
    Trimmed (name ++ '<' :: (argument ++ ['>'])) :=
  (trimmed_of_isName hName).append (trimmed_of_ends rfl rfl) (ne_nil_of_isName hName)
    (List.cons_ne_nil _ _)

/-- A name with an argument that takes up the rest of the text is read as an
application, which only a promise gives a structure. -/
theorem parseMember_applied (hName : isName name = true) (h : Balanced text)
    (hLast : text.getLast? ≠ some '=') :
    parseMember generics (name ++ '<' :: (text ++ ['>'])) =
      readForm generics (name ++ '<' :: (text ++ ['>'])) (.applied name text) :=
  parseMember_of_form (trimmed_applied hName) (form_applied hName h hLast)

theorem parseMember_promise (h : Balanced text) (hLast : text.getLast? ≠ some '=') :
    parseMember generics ("Promise".toList ++ '<' :: (text ++ ['>'])) =
      (parse generics text).map .promiseOf := by
  rw [parseMember_applied rfl h hLast, readForm, if_pos rfl]

/-- A word before a text is set off from it by a space. -/
theorem trimmed_modified (hWord : isName word.toList = true) (hTrimmed : Trimmed text)
    (hNil : text ≠ []) : Trimmed (word.toList ++ ' ' :: text) := by
  have hSpace : Trimmed (word.toList ++ ([' '] ++ text)) :=
    (trimmed_of_isName hWord).append_middle hTrimmed (ne_nil_of_isName hWord) hNil
  exact hSpace

theorem afterWord?_modified (hTrimmed : Trimmed text) :
    afterWord? word (word.toList ++ ' ' :: text) = some text :=
  afterWord?_eq_some_iff.mpr ⟨' ', text, rfl, rfl, (trimStart_eq_self hTrimmed.head).symm⟩

/-- A modifier is recognised by the blank behind it, so that a name may
begin like one. -/
theorem form_readonly (hTrimmed : Trimmed text) :
    Form.of ("readonly".toList ++ ' ' :: text) = .ok (.readonlyOf text) :=
  Form.of_eq_ok_iff.mpr (.readonlyOf rfl (afterWord?_modified hTrimmed))

/-- The modifier changes nothing in the type. -/
theorem parseMember_readonly (hTrimmed : Trimmed text) (hNil : text ≠ []) :
    parseMember generics ("readonly".toList ++ ' ' :: text) = parseMember generics text :=
  parseMember_of_form (trimmed_modified rfl hTrimmed hNil) (form_readonly hTrimmed)

/-- The operator for keys binds everything behind it within a member. -/
theorem form_keyOf (hTrimmed : Trimmed text) :
    Form.of ("keyof ".toList ++ text) = .ok (.keyOf text) :=
  Form.of_eq_ok_iff.mpr (.keyOf rfl rfl (afterWord?_modified hTrimmed))

theorem parseMember_keyOf (hTrimmed : Trimmed text) (hNil : text ≠ []) :
    parseMember generics ("keyof ".toList ++ text) = (parseMember generics text).map .keyOf :=
  parseMember_of_form (trimmed_modified (show isName "keyof".toList = true from rfl) hTrimmed hNil)
    (form_keyOf hTrimmed)

end ScriptBindings.TypeExpr
