import ScriptBindings.Proofs.Bracket.Faults
import ScriptBindings.Proofs.TypeExpr.Members

/-! Types of texts that have another text as a part. A balanced text in
parentheses, in the angle brackets of an application, before `[]` or behind
a modifier is handed to the reader as it stands, whatever it is, so that its
type, or its fault, is all that the larger text depends on. -/
namespace ScriptBindings.TypeExpr

open Text Outcomes ScriptBindings.Bracket

variable {generics : List String} {text name : List Char}

/-- Parentheses around a whole type are dropped, without regard to what
stands in them. -/
theorem parse_grouped (h : Balanced text) :
    parse generics ('(' :: (text ++ [')'])) = parse generics text := by
  rw [(MemberText.grouped h).parse_eq, parseMember_grouped h]

/-- An array of a type in parentheses has the whole type for its element, be
it a union or not. -/
theorem parseMember_grouped_array (h : Balanced text) :
    parseMember generics ('(' :: (text ++ [')']) ++ ['[', ']']) =
      (parse generics text).map .arrayOf := by
  have hText := MemberText.grouped h
  rw [parseMember_array hText.squares.balanced hText.trimmed hText.ne_nil rfl rfl,
    parseMember_grouped h]

/-- An array of a type in parentheses is read from the type, even if that is
a union or a function. -/
theorem parse_grouped_array (h : Balanced text) :
    parse generics ('(' :: (text ++ [')']) ++ ['[', ']']) = (parse generics text).map .arrayOf := by
  rw [(MemberText.grouped h).squares.parse_eq, parseMember_grouped_array h]

/-- The modifier before an array is dropped as well. Arrays that can be
written to and those that cannot are the same for the host. -/
theorem parse_readonly_array (h : Balanced text) :
    parse generics ("readonly".toList ++ ' ' :: ('(' :: (text ++ [')']) ++ ['[', ']'])) =
      (parse generics text).map .arrayOf := by
  have hText := (MemberText.grouped h).squares
  rw [(hText.modified rfl).parse_eq, parseMember_readonly hText.trimmed hText.ne_nil,
    parseMember_grouped_array h]

/-- The operator for keys is applied to the whole type in the
parentheses. -/
theorem parse_keyOf_grouped (h : Balanced text) :
    parse generics ("keyof ".toList ++ '(' :: (text ++ [')'])) =
      (parse generics text).map .keyOf := by
  have hText := MemberText.grouped h
  rw [hText.keyOf.parse_eq, parseMember_keyOf hText.trimmed hText.ne_nil, parseMember_grouped h]

/-- A name with an argument is read by its form. What becomes of it depends
on the name. -/
theorem parse_applied (hName : isName name = true) (h : Balanced text)
    (hLast : text.getLast? ≠ some '=') :
    parse generics (name ++ '<' :: (text ++ ['>'])) =
      readForm generics (name ++ '<' :: (text ++ ['>'])) (.applied name text) := by
  rw [(MemberText.applied hName h hLast).parse_eq, parseMember_applied hName h hLast]

/-- Of the names with an argument a promise is the one whose argument is
read as a type. -/
theorem parse_promise (h : Balanced text) (hLast : text.getLast? ≠ some '=') :
    parse generics ("Promise".toList ++ '<' :: (text ++ ['>'])) =
      (parse generics text).map .promiseOf := by
  rw [parse_applied rfl h hLast, readForm, if_pos rfl]

/-- Both names of the array type mean the same. -/
theorem parse_array (hName : name = "Array".toList ∨ name = "ReadonlyArray".toList)
    (h : Balanced text) (hLast : text.getLast? ≠ some '=') :
    parse generics (name ++ '<' :: (text ++ ['>'])) = (parse generics text).map .arrayOf := by
  have hWord : isName name = true ∧ name ≠ "Promise".toList := by
    rcases hName with rfl | rfl <;> decide
  rw [parse_applied hWord.1 h hLast, readForm, if_neg hWord.2, if_pos hName]

/-- A text that can be cut gives the same type wherever it stands as a part:
by itself, in parentheses, as the element of an array type in each of its
spellings, as the result of a promise, and behind `keyof`. An `=` at its end
would make the closing angle bracket an arrow. -/
theorem parse_composed {separator : Char} {pieces : List (List Char)}
    (h : splitTop separator text = .ok pieces) (hLast : text.getLast? ≠ some '=') :
    let grouped := "(".toList ++ text ++ ")".toList
    parse generics grouped = parse generics text ∧
      parse generics (grouped ++ "[]".toList) = (parse generics text).map .arrayOf ∧
      parse generics ("Array<".toList ++ text ++ ">".toList) =
        (parse generics text).map .arrayOf ∧
      parse generics ("ReadonlyArray<".toList ++ text ++ ">".toList) =
        (parse generics text).map .arrayOf ∧
      parse generics ("readonly ".toList ++ grouped ++ "[]".toList) =
        (parse generics text).map .arrayOf ∧
      parse generics ("Promise<".toList ++ text ++ ">".toList) =
        (parse generics text).map .promiseOf ∧
      parse generics ("keyof ".toList ++ grouped) = (parse generics text).map .keyOf := by
  have hText : Balanced text := splitTop_ok_iff.mp ⟨pieces, h⟩
  exact ⟨parse_grouped hText, parse_grouped_array hText, parse_array (.inl rfl) hText hLast,
    parse_array (.inr rfl) hText hLast, parse_readonly_array hText, parse_promise hText hLast,
    parse_keyOf_grouped hText⟩

/-- A union with a literal, an application and a function type in
parentheses. -/
theorem parse_composed_union :
    let text := "'a) ' | Map<T, b[]> | ((x: T) => void)".toList
    let t : TypeExpr := .unionOf [.reference "'a) '", .reference "Map<T, b[]>",
      .reference "(x: T) => void"]
    splitTop '|' text = .ok ["'a) ' ".toList, " Map<T, b[]> ".toList, " ((x: T) => void)".toList] ∧
      parse ["T"] text = .ok t ∧
      parse ["T"] ("readonly (".toList ++ text ++ ")[]".toList) = .ok (.arrayOf t) ∧
      parse ["T"] ("Promise<".toList ++ text ++ ">".toList) = .ok (.promiseOf t) := by
  intro text t
  have hText : parse ["T"] text = .ok t := by decide +kernel
  have hCut : splitTop '|' text =
      .ok ["'a) ' ".toList, " Map<T, b[]> ".toList, " ((x: T) => void)".toList] := by
    decide +kernel
  obtain ⟨-, -, -, -, hReadonly, hPromise, -⟩ :=
    @parse_composed ["T"] text '|' _ hCut (by decide +kernel)
  rw [hText] at hReadonly hPromise
  exact ⟨hCut, hText, hReadonly, hPromise⟩

end ScriptBindings.TypeExpr
