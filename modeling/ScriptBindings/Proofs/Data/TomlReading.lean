import ScriptBindings.Data.TomlParser
import ScriptBindings.Proofs.Data.Tabular
import ScriptBindings.Proofs.Data.TomlStrings

/-! TOML lines read back: gaps, paths, the values of a line, headers and
entries. What is read ends where the next thing begins, so each lemma says
what may stand behind. -/
namespace ScriptBindings.Toml

variable {rest more : List Char} {c : Char} {fuel room : Nat}

/-! ### Gaps -/

/-- Whether a character is neither blank nor the beginning of a comment. -/
def isVisible (c : Char) : Bool :=
  !isSpace c && c != '#' && c != '\n' && c != '\r'

theorem dropSpaces_visible (h : isVisible c = true) (more : List Char) :
    dropSpaces (c :: more) = c :: more := by
  have hSpace : isSpace c = false := by
    simp only [isVisible, Bool.and_eq_true, Bool.not_eq_true'] at h
    exact h.1.1.1
  simp [dropSpaces, hSpace]

theorem dropGap_visible (h : isVisible c = true) (more : List Char) :
    dropGap (c :: more) = c :: more := by
  have hRest : dropComment (dropSpaces (c :: more)) = c :: more := by
    rw [dropSpaces_visible h, dropComment]
    rintro behind hSame
    rw [(List.cons.inj hSame).1] at h
    cases h
  have hEnd : lineEnd? (c :: more) = none := by
    refine lineEnd?_cons ?_ ?_ more <;> rintro rfl <;> cases h
  rw [dropGap, hRest]
  split
  · next hFound =>
      rw [hEnd] at hFound
      cases hFound
  · rfl

theorem dropGap_line (more : List Char) : dropGap ('\n' :: more) = dropGap more := by
  rw [dropGap]
  rfl

theorem dropGap_space (more : List Char) : dropGap (' ' :: more) = dropGap more := by
  have hSpaces : dropSpaces (' ' :: more) = dropSpaces more := rfl
  rw [dropGap, hSpaces, dropGap]

theorem dropGap_nil : dropGap [] = [] := by
  rw [dropGap]
  rfl

/-! ### Paths -/

theorem isVisible_of_isBareKeyChar (h : isBareKeyChar c = true) : isVisible c = true := by
  by_contra hHidden
  simp only [isVisible, isSpace, Bool.and_eq_true, Bool.not_eq_true', bne_iff_ne,
    Bool.or_eq_false_iff, beq_eq_false_iff_ne, not_and_or, ne_eq, not_not] at hHidden
  rcases hHidden with (((rfl | rfl) | rfl) | rfl) | rfl <;> revert h <;> decide

/-- A quoted key begins with a visible character which opens no header and
is not a mark of the byte order. -/
theorem exists_quoteKey_visible (key : String) :
    ∃ first behind, (quoteKey key).toList = first :: behind ∧ isVisible first = true ∧
      first ≠ '[' ∧ first ≠ '\uFEFF' := by
  obtain ⟨first, behind, hText, rfl | rfl | hBare⟩ := exists_quoteKey_cons key
  · exact ⟨_, behind, hText, by decide, by decide, by decide⟩
  · exact ⟨_, behind, hText, by decide, by decide, by decide⟩
  · refine ⟨first, behind, hText, isVisible_of_isBareKeyChar hBare, ?_, ?_⟩
    all_goals
      rintro rfl
      revert hBare
      decide

theorem dropSpaces_quoteKey (key : String) (more : List Char) :
    dropSpaces ((quoteKey key).toList ++ more) = (quoteKey key).toList ++ more := by
  obtain ⟨first, behind, hText, hVisible, -⟩ := exists_quoteKey_visible key
  rw [hText, List.cons_append, dropSpaces_visible hVisible]

/-- What may stand behind a path: it neither goes on with the last key nor
with another. -/
def PathEnd (rest : List Char) : Prop :=
  (∀ c, rest.head? = some c → isBareKeyChar c = false) ∧ (dropSpaces rest).head? ≠ some '.'

theorem toList_quotePath_singleton (key : String) :
    (quotePath [key]).toList = (quoteKey key).toList := by
  rw [quotePath, List.map_singleton, String.intercalate_singleton]

/-- A dotted path is its first key and the path of the others behind a
dot. -/
theorem toList_quotePath_cons (key next : String) (path : List String) :
    (quotePath (key :: next :: path)).toList =
      (quoteKey key).toList ++ '.' :: (quotePath (next :: path)).toList := by
  rw [quotePath, List.map_cons, List.map_cons, String.intercalate_cons_cons, quotePath,
    List.map_cons, String.toList_append, String.toList_append, List.append_assoc]
  rfl

/-- A dotted path is read back key by key. It may be followed by what ends a
path. -/
theorem keysWithin_quotePath (hRest : PathEnd rest) {path : List String} (hNil : path ≠ []) :
    ∀ fuel, path.length ≤ fuel →
      keysWithin fuel ((quotePath path).toList ++ rest) = some (path, dropSpaces rest) := by
  induction path with
  | nil => exact absurd rfl hNil
  | cons key path ih =>
      intro fuel hFuel
      rw [List.length_cons] at hFuel
      obtain ⟨fuel, rfl⟩ := Nat.exists_eq_add_of_le' (show 1 ≤ fuel by omega)
      cases path with
      | nil =>
          have hDot := hRest.2
          rw [toList_quotePath_singleton, keysWithin, dropSpaces_quoteKey,
            key?_quoteKey key hRest.1]
          simp only [Option.bind_eq_bind, Option.bind_some]
          split
          · next hFound => simp [hFound] at hDot
          · rfl
      | cons next path =>
          have hNext := ih (List.cons_ne_nil next path) fuel (by omega)
          have hDot : ∀ c, ('.' :: ((quotePath (next :: path)).toList ++ rest)).head? = some c →
              isBareKeyChar c = false := by
            rintro c hc
            obtain rfl : '.' = c := by simpa using hc
            decide
          rw [toList_quotePath_cons, List.append_assoc, List.cons_append, keysWithin,
            dropSpaces_quoteKey, key?_quoteKey key hDot]
          simp only [Option.bind_eq_bind, Option.bind_some,
            dropSpaces_visible (show isVisible '.' = true by decide), hNext]
          rfl

/-- The text of a path is at least as long as the path, so that the fuel
taken from the text suffices. -/
theorem length_le_quotePath (path : List String) :
    path.length ≤ (quotePath path).toList.length := by
  induction path with
  | nil => exact Nat.zero_le _
  | cons key path ih =>
      obtain ⟨first, behind, hText, -⟩ := exists_quoteKey_cons key
      cases path with
      | nil =>
          rw [toList_quotePath_singleton, hText]
          simp
      | cons next path =>
          rw [toList_quotePath_cons, hText]
          simp only [List.length_append, List.length_cons] at ih ⊢
          omega

/-- A path that is not too long is read back, with the spaces behind it. The
reader has a limit for how deep tables may be nested. -/
theorem path?_quotePath (hRest : PathEnd rest) {path : List String} (hNil : path ≠ [])
    (hDepth : path.length ≤ depthLimit) :
    path? ((quotePath path).toList ++ rest) = some (path, dropSpaces rest) := by
  have hFuel : path.length ≤ ((quotePath path).toList ++ rest).length + 1 := by
    have := length_le_quotePath path
    rw [List.length_append]
    omega
  rw [path?, keysWithin_quotePath hRest hNil _ hFuel]
  simp [hDepth]

/-- A path begins with a visible character which is not a bracket, so that a
table is told from a row. -/
theorem exists_quotePath_visible {path : List String} (hNil : path ≠ []) :
    ∃ first behind, (quotePath path).toList = first :: behind ∧ isVisible first = true ∧
      first ≠ '[' := by
  obtain ⟨key, path, rfl⟩ := List.exists_cons_of_ne_nil hNil
  obtain ⟨first, behind, hText, hVisible, hFirst, -⟩ := exists_quoteKey_visible key
  cases path with
  | nil => exact ⟨first, behind, by rw [toList_quotePath_singleton, hText], hVisible, hFirst⟩
  | cons next path => exact ⟨first, _, by rw [toList_quotePath_cons, hText]; rfl, hVisible, hFirst⟩

theorem pathEnd_bracket (more : List Char) : PathEnd (']' :: more) := by
  refine ⟨fun c hc => ?_, fun hDot => ?_⟩
  · obtain rfl : ']' = c := Option.some.inj hc
    decide
  · have hSame : ']' = '.' := Option.some.inj hDot
    revert hSame
    decide

/-- A key of an entry is ended by the blank and the equals sign. -/
theorem pathEnd_equals (more : List Char) : PathEnd (' ' :: '=' :: more) := by
  refine ⟨fun c hc => ?_, fun hDot => ?_⟩
  · obtain rfl : ' ' = c := Option.some.inj hc
    decide
  · have hSame : '=' = '.' := Option.some.inj hDot
    revert hSame
    decide

/-! ### Values of a line -/

/-- What may stand behind a value: no quote, which would go on with a
text. -/
def ValueEnd (rest : List Char) : Prop :=
  rest.head? ≠ some '"' ∧ rest.head? ≠ some '\''

/-- A string begins with one of the two quotes, whichever kind was chosen
for it. -/
theorem exists_quote_cons (value : String) :
    ∃ first behind, (quote value).toList = first :: behind ∧ (first = '"' ∨ first = '\'') := by
  rw [quote, String.toList_ofList]
  exact exists_write_cons (StringKind.of value.toList) value.toList

/-- A string is read back as a value, whichever of the four kinds it is
written in. -/
theorem valueWithin_quote (hRest : ValueEnd rest) (fuel room : Nat) (value : String) :
    valueWithin (fuel + 1) room ((quote value).toList ++ rest) = some (.text value, rest) := by
  have hText := string?_quote value hRest.1 hRest.2
  obtain ⟨first, behind, hCons, hQuote⟩ := exists_quote_cons value
  rw [hCons, List.cons_append] at hText ⊢
  have hScalar : scalar? (first :: (behind ++ rest)) = some (.text value, rest) := by
    rcases hQuote with rfl | rfl <;> rw [scalar?, hText] <;> simp
  rcases hQuote with rfl | rfl <;> rw [valueWithin, hScalar] <;> simp

theorem valueWithin_flag (fuel room : Nat) (value : Bool) :
    valueWithin (fuel + 1) room ((if value then "true" else "false" : String).toList ++ rest) =
      some (.flag value, rest) := by
  cases value <;> rfl

/-- The lines of a list of several texts, one to a line. -/
def itemLines (values : List String) : List Char :=
  values.flatMap fun value => "    ".toList ++ (quote value).toList ++ [',', '\n']

theorem dropGap_quote (value : String) (more : List Char) :
    dropGap ((quote value).toList ++ more) = (quote value).toList ++ more := by
  obtain ⟨first, behind, hCons, hQuote⟩ := exists_quote_cons value
  have hVisible : isVisible first = true := by rcases hQuote with rfl | rfl <;> decide
  rw [hCons, List.cons_append, dropGap_visible hVisible]

theorem dropGap_indent (more : List Char) :
    dropGap ('\n' :: ("    ".toList ++ more)) = dropGap more := by
  have hSpaces : "    ".toList = [' ', ' ', ' ', ' '] := rfl
  rw [dropGap_line, hSpaces]
  simp only [List.cons_append, List.nil_append, dropGap_space]

/-- A value is ended by anything but another quote, which would make three
of two. -/
theorem valueEnd_of_ne (hDouble : c ≠ '"') (hSingle : c ≠ '\'') (more : List Char) :
    ValueEnd (c :: more) :=
  ⟨fun h => hDouble (Option.some.inj h), fun h => hSingle (Option.some.inj h)⟩

/-- Behind an item that does not end the list the next items are read. -/
theorem itemsWithin_comma (fuel room : Nat) (value : String) (more : List Char) :
    itemsWithin (fuel + 2) room ((quote value).toList ++ ',' :: more) =
      (itemsWithin (fuel + 1) room (dropGap more)).map fun (items, behind) =>
        (.text value :: items, behind) := by
  have hEnd : ValueEnd (',' :: more) := valueEnd_of_ne (by decide) (by decide) more
  have hValue := valueWithin_quote hEnd fuel room value
  obtain ⟨first, behind, hCons, hQuote⟩ := exists_quote_cons value
  rw [hCons, List.cons_append] at hValue ⊢
  rw [itemsWithin, hValue]
  · simp only [Option.bind_eq_bind, Option.bind_some,
      dropGap_visible (show isVisible ',' = true by decide)]
    rw [Option.map_eq_bind]
    rfl
  · rintro other hSame
    rw [(List.cons.inj hSame).1] at hQuote
    revert hQuote
    decide

/-- The last item of a list on one line is followed by the closing
bracket. -/
theorem itemsWithin_last (fuel room : Nat) (value : String) (more : List Char) :
    itemsWithin (fuel + 2) room ((quote value).toList ++ ']' :: more) =
      some ([.text value], more) := by
  have hEnd : ValueEnd (']' :: more) := valueEnd_of_ne (by decide) (by decide) more
  have hValue := valueWithin_quote hEnd fuel room value
  obtain ⟨first, behind, hCons, hQuote⟩ := exists_quote_cons value
  rw [hCons, List.cons_append] at hValue ⊢
  rw [itemsWithin, hValue]
  · simp only [Option.bind_eq_bind, Option.bind_some,
      dropGap_visible (show isVisible ']' = true by decide)]
    rfl
  · rintro other hSame
    rw [(List.cons.inj hSame).1] at hQuote
    revert hQuote
    decide

/-- A list over several lines ends each item with a comma, the last one as
well. -/
theorem itemsWithin_lines (room : Nat) (values : List String) (rest : List Char) :
    ∀ fuel, values.length < fuel →
      itemsWithin (fuel + 1) room (dropGap ('\n' :: (itemLines values ++ ']' :: rest))) =
        some (values.map .text, rest) := by
  induction values with
  | nil =>
      intro fuel _
      have hGap : dropGap ('\n' :: ']' :: rest) = ']' :: rest := by
        rw [dropGap_line, dropGap_visible (by decide)]
      rw [itemLines, List.flatMap_nil, List.nil_append, hGap, itemsWithin, List.map_nil]
  | cons value values ih =>
      intro fuel hFuel
      rw [List.length_cons] at hFuel
      obtain ⟨fuel, rfl⟩ := Nat.exists_eq_add_of_le' (show 1 ≤ fuel by omega)
      have hLines : itemLines (value :: values) ++ ']' :: rest =
          "    ".toList ++ ((quote value).toList ++
            (',' :: '\n' :: (itemLines values ++ ']' :: rest))) := by
        simp [itemLines]
      rw [hLines, dropGap_indent, dropGap_quote, itemsWithin_comma, ih fuel (by omega)]
      rfl

theorem valueText_texts (values : List String) :
    valueText (.texts values) = listText (values.map quote) := by
  have hItems : itemTexts (values.map .text) = values.map quote := by
    induction values with
    | nil => rfl
    | cons value values ih => rw [List.map_cons, itemTexts, ih, valueText, List.map_cons]
  rw [Data.texts, valueText, hItems]

theorem toList_itemLines (values : List String) :
    (String.join ((values.map quote).map fun item => "    " ++ item ++ ",\n")).toList =
      itemLines values := by
  simp [String.toList_join, List.flatMap_map, itemLines]

/-- A list is read between its brackets, one level of nesting deeper. -/
theorem valueWithin_list {items : List Data} {body : List Char}
    (h : itemsWithin fuel room (dropGap body) = some (items, more)) :
    valueWithin (fuel + 1) (room + 1) ('[' :: body) = some (.list items, more) := by
  rw [valueWithin]
  simp [h]

/-- A list of strings is read back, in either of the two layouts. -/
theorem valueWithin_texts (room : Nat) (values : List String) (rest : List Char)
    (hFuel : values.length + 1 < fuel) :
    valueWithin (fuel + 1) (room + 1) ((valueText (.texts values)).toList ++ rest) =
      some (.texts values, rest) := by
  rw [valueText_texts]
  match values with
  | [] =>
      obtain ⟨fuel, rfl⟩ := Nat.exists_eq_add_of_le' (show 1 ≤ fuel by omega)
      have hItems : itemsWithin (fuel + 1) room (dropGap (']' :: rest)) = some ([], rest) := by
        rw [dropGap_visible (by decide), itemsWithin]
      exact valueWithin_list hItems
  | [value] =>
      rw [List.length_singleton] at hFuel
      obtain ⟨fuel, rfl⟩ := Nat.exists_eq_add_of_le' (show 2 ≤ fuel by omega)
      have hBody : (listText [quote value]).toList ++ rest =
          '[' :: ((quote value).toList ++ ']' :: rest) := by simp [listText]
      rw [List.map_singleton, hBody]
      refine valueWithin_list ?_
      rw [dropGap_quote, itemsWithin_last]
      rfl
  | first :: second :: others =>
      have hBody : (listText ((first :: second :: others).map quote)).toList ++ rest =
          '[' :: '\n' :: (itemLines (first :: second :: others) ++ ']' :: rest) := by
        rw [← toList_itemLines]
        simp [listText]
      obtain ⟨fuel, rfl⟩ := Nat.exists_eq_add_of_le' (show 1 ≤ fuel by omega)
      rw [hBody]
      exact valueWithin_list (itemsWithin_lines room _ rest fuel (by omega))

/-- The text of a list is at least as long as the list, so that the fuel
suffices. -/
theorem length_le_valueText_texts (values : List String) :
    values.length ≤ (valueText (.texts values)).toList.length := by
  rw [valueText_texts]
  match values with
  | [] => exact Nat.zero_le _
  | [value] => simp [listText]
  | first :: second :: others =>
      have hLines (values : List String) : values.length ≤ (itemLines values).length := by
        induction values with
        | nil => exact Nat.zero_le _
        | cons value values ih =>
            simp only [itemLines, List.flatMap_cons, List.length_append, List.length_cons] at ih ⊢
            omega
      have hAll := hLines (first :: second :: others)
      rw [← toList_itemLines] at hAll
      simp only [listText, List.map_cons, String.toList_append, List.length_append] at hAll ⊢
      omega

/-- A plain value is read back, however deep values may nest. -/
theorem valueWithin_plain {value : Data} (h : value.Plain) (hRest : ValueEnd rest) (room : Nat)
    (hFuel : (valueText value).toList.length + 1 < fuel) :
    valueWithin (fuel + 1) (room + 1) ((valueText value).toList ++ rest) = some (value, rest) := by
  cases h with
  | flag value => exact valueWithin_flag fuel (room + 1) value
  | text value => exact valueWithin_quote hRest fuel (room + 1) value
  | texts values =>
      have hLength := length_le_valueText_texts values
      exact valueWithin_texts room values rest (by omega)

/-! ### Lines -/

theorem exists_valueText_visible {value : Data} (h : value.Plain) :
    ∃ first behind, (valueText value).toList = first :: behind ∧ isVisible first = true := by
  cases h with
  | flag value => cases value <;> exact ⟨_, _, rfl, by decide⟩
  | text value =>
      obtain ⟨first, behind, hText, hQuote⟩ := exists_quote_cons value
      exact ⟨first, behind, hText, by rcases hQuote with rfl | rfl <;> decide⟩
  | texts values =>
      rw [valueText_texts]
      match values with
      | [] => exact ⟨_, _, rfl, by decide⟩
      | [value] => exact ⟨'[', (quote value).toList ++ [']'], by simp [listText], by decide⟩
      | first :: second :: others => exact ⟨'[', _, by simp [listText]; rfl, by decide⟩

/-- An entry is read back, up to the end of its line. -/
theorem statement?_entry {value : Data} (h : value.Plain) (key : String) (rest : List Char) :
    statement? ((quoteKey key ++ " = " ++ valueText value ++ "\n").toList ++ rest) =
      some (.entry [key] value, '\n' :: rest) := by
  obtain ⟨first, behind, hKey, -, hFirst, -⟩ := exists_quoteKey_visible key
  obtain ⟨head, tail, hValue, hVisible⟩ := exists_valueText_visible h
  have hDepth : [key].length ≤ depthLimit := by
    rw [List.length_singleton]
    decide
  have hPath : path? ((quoteKey key).toList ++
      ' ' :: '=' :: ' ' :: ((valueText value).toList ++ '\n' :: rest)) =
        some ([key], '=' :: ' ' :: ((valueText value).toList ++ '\n' :: rest)) := by
    rw [← toList_quotePath_singleton,
      path?_quotePath (pathEnd_equals _) (List.cons_ne_nil key []) hDepth]
    rfl
  have hSpaces : dropSpaces (' ' :: ((valueText value).toList ++ '\n' :: rest)) =
      (valueText value).toList ++ '\n' :: rest := by
    rw [hValue]
    exact dropSpaces_visible hVisible _
  have hRead : valueWithin (2 * (' ' :: ((valueText value).toList ++ '\n' :: rest)).length + 2)
      depthLimit ((valueText value).toList ++ '\n' :: rest) = some (value, '\n' :: rest) := by
    refine valueWithin_plain h (valueEnd_of_ne (by decide) (by decide) rest) 78 ?_
    simp only [List.length_cons, List.length_append]
    omega
  have hBody : (quoteKey key ++ " = " ++ valueText value ++ "\n").toList ++ rest =
      (quoteKey key).toList ++
        ' ' :: '=' :: ' ' :: ((valueText value).toList ++ '\n' :: rest) := by simp
  rw [hKey, List.cons_append] at hPath
  rw [hBody, hKey, List.cons_append, statement?, hPath]
  · simp only [Option.bind_eq_bind, Option.bind_some]
    rw [hSpaces, hRead]
    rfl
  · intro other hSame
    exact hFirst (List.cons.inj hSame).1
  · intro other hSame
    exact hFirst (List.cons.inj hSame).1

theorem statement?_table {path : List String} (hNil : path ≠ []) (hDepth : path.length ≤ depthLimit)
    (rest : List Char) :
    statement? (("[" ++ quotePath path ++ "]\n").toList ++ rest) =
      some (.table path, '\n' :: rest) := by
  obtain ⟨first, behind, hText, hVisible, hFirst⟩ := exists_quotePath_visible hNil
  have hPath := path?_quotePath (pathEnd_bracket ('\n' :: rest)) hNil hDepth
  have hBody : ("[" ++ quotePath path ++ "]\n").toList ++ rest =
      '[' :: first :: (behind ++ ']' :: '\n' :: rest) := by simp [hText]
  rw [hText, List.cons_append] at hPath
  rw [hBody, statement?, hPath]
  · rfl
  · intro other hSame
    exact hFirst (List.cons.inj hSame).1

theorem statement?_row {path : List String} (hNil : path ≠ []) (hDepth : path.length ≤ depthLimit)
    (rest : List Char) :
    statement? (("[[" ++ quotePath path ++ "]]\n").toList ++ rest) =
      some (.row path, '\n' :: rest) := by
  have hPath := path?_quotePath (pathEnd_bracket (']' :: '\n' :: rest)) hNil hDepth
  have hBody : ("[[" ++ quotePath path ++ "]]\n").toList ++ rest =
      '[' :: '[' :: ((quotePath path).toList ++ ']' :: ']' :: '\n' :: rest) := by simp
  rw [hBody, statement?, hPath]
  rfl

end ScriptBindings.Toml
