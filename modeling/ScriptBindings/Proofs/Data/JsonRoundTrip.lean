import Mathlib.Data.List.Forall2
import ScriptBindings.Proofs.Data.JsonStrings

/-! JSON texts read back. What the printer writes, on one line or indented,
spells tokens however the text goes on behind it, and these tokens denote
the value that was written. Numbers are left out: they are kept as written,
and not every text is one. -/
namespace ScriptBindings.Json

variable {text first second : List Char} {tokens others : List Token}

/-! ### Tokens -/

/-- However the text goes on, its tokens are read first. -/
def Spells (text : List Char) (tokens : List Token) : Prop :=
  ∀ rest fuel, (text ++ rest).length ≤ fuel → ∃ left, rest.length ≤ left ∧
    tokensWithin fuel (text ++ rest) = (tokensWithin left rest).map (tokens ++ ·)

theorem spells_nil : Spells [] [] :=
  fun _ fuel h => ⟨fuel, h, by simp⟩

/-- Texts that spell tokens may be put one behind the other, since none of
them ends in the middle of one. -/
theorem Spells.append (hFirst : Spells first tokens) (hSecond : Spells second others) :
    Spells (first ++ second) (tokens ++ others) := by
  intro rest fuel h
  rw [List.append_assoc] at h ⊢
  obtain ⟨between, hBetween, hTokens⟩ := hFirst (second ++ rest) fuel h
  obtain ⟨left, hLeft, hOthers⟩ := hSecond rest between hBetween
  refine ⟨left, hLeft, ?_⟩
  rw [hTokens, hOthers, Option.map_map]
  simp [Function.comp_def]

theorem spells_blanks (h : ∀ c ∈ text, isSpace c = true) : Spells text [] := by
  induction text with
  | nil => exact spells_nil
  | cons c text ih =>
      obtain ⟨hSpace, hText⟩ := List.forall_mem_cons.mp h
      intro rest fuel hFuel
      rw [List.cons_append, List.length_cons] at hFuel
      obtain ⟨fuel, rfl⟩ := Nat.exists_eq_add_of_le' (show 1 ≤ fuel by omega)
      have hRest : (text ++ rest).length ≤ fuel := by omega
      obtain ⟨left, hLeft, hTokens⟩ := ih hText rest fuel hRest
      exact ⟨left, hLeft, by rw [List.cons_append, tokensWithin, if_pos hSpace, hTokens]⟩

/-- A text that is read as a token, and does not begin with a blank, spells
it. -/
theorem spells_token {c : Char} {token : Token} (hSpace : isSpace c = false)
    (h : ∀ rest, token? (c :: text ++ rest) = some (token, rest)) :
    Spells (c :: text) [token] := by
  intro rest fuel hFuel
  simp only [List.length_append, List.length_cons] at hFuel
  obtain ⟨fuel, rfl⟩ := Nat.exists_eq_add_of_le' (show 1 ≤ fuel by omega)
  refine ⟨fuel, by omega, ?_⟩
  have hToken := h rest
  rw [List.cons_append] at hToken ⊢
  rw [tokensWithin, if_neg (by simp [hSpace]), hToken, Option.map_eq_bind]
  rfl

theorem spells_openRecord : Spells ['\x7b'] [.openRecord] := spells_token (by decide) fun _ => rfl
theorem spells_closeRecord : Spells ['\x7d'] [.closeRecord] := spells_token (by decide) fun _ => rfl
theorem spells_openList : Spells ['['] [.openList] := spells_token (by decide) fun _ => rfl
theorem spells_closeList : Spells [']'] [.closeList] := spells_token (by decide) fun _ => rfl
theorem spells_colon : Spells [':'] [.colon] := spells_token (by decide) fun _ => rfl
theorem spells_comma : Spells [','] [.comma] := spells_token (by decide) fun _ => rfl

theorem toList_quote (value : String) :
    (quote value).toList = '"' :: (value.toList.flatMap escapeChar ++ ['"']) := by
  simp [quote]

/-- A quoted string is read as one token which holds the string. -/
theorem spells_quote (value : String) : Spells (quote value).toList [.text value] := by
  rw [toList_quote]
  refine spells_token (by decide) fun rest => ?_
  rw [List.cons_append, List.append_assoc, List.singleton_append, token?, string?_quote]
  simp

theorem tokens?_of_spells (h : Spells text tokens) : tokens? text = some tokens := by
  obtain ⟨left, -, hTokens⟩ := h [] text.length (by simp)
  rw [List.append_nil] at hTokens
  rw [tokens?, hTokens, tokensWithin]
  simp

/-! ### Values -/

/-- However the tokens go on, the value is read first. -/
def Denotes (tokens : List Token) (d : Data) : Prop :=
  ∀ rest fuel, 2 * tokens.length ≤ fuel → valueWithin fuel (tokens ++ rest) = some (d, rest)

/-- The text is read as the value. -/
def Writes (text : String) (d : Data) : Prop :=
  ∃ tokens, Spells text.toList tokens ∧ Denotes tokens d

/-- A text that writes data is parsed to that data, with nothing left
over. -/
theorem Writes.parse? {text : String} {d : Data} (h : Writes text d) : parse? text = some d := by
  obtain ⟨tokens, hSpells, hDenotes⟩ := h
  have hValue := hDenotes [] (2 * tokens.length) (Nat.le_refl _)
  rw [List.append_nil] at hValue
  rw [Json.parse?, tokens?_of_spells hSpells, Option.bind_some, ofTokens?, hValue]

/-- However the tokens go on behind the list, its items are read first. -/
def DenotesItems (tokens : List Token) (items : List Data) : Prop :=
  ∀ rest fuel, 2 * tokens.length + 1 ≤ fuel →
    itemsWithin fuel (tokens ++ .closeList :: rest) = some (items, rest)

/-- However the tokens go on behind the record, its fields are read
first. -/
def DenotesFields (tokens : List Token) (fields : List (String × Data)) : Prop :=
  ∀ rest fuel, 2 * tokens.length + 1 ≤ fuel →
    fieldsWithin fuel (tokens ++ .closeRecord :: rest) = some (fields, rest)

/-- Tokens of data begin with some token, which does not close a list. So an
empty list can be told from one that has items. -/
theorem Denotes.exists_cons {d : Data} (h : Denotes tokens d) :
    ∃ first behind, tokens = first :: behind ∧ first ≠ .closeList := by
  have hValue := h [] (2 * tokens.length) (Nat.le_refl _)
  cases tokens with
  | nil => simp [valueWithin] at hValue
  | cons first behind =>
      refine ⟨first, behind, rfl, ?_⟩
      rintro rfl
      simp [Nat.mul_add, valueWithin] at hValue

theorem Denotes.singleton {d : Data} (h : Denotes tokens d) : DenotesItems tokens [d] := by
  intro rest fuel hFuel
  obtain ⟨fuel, rfl⟩ := Nat.exists_eq_add_of_le' (show 1 ≤ fuel by omega)
  rw [itemsWithin, h _ fuel (by omega)]
  rfl

theorem Denotes.cons {d : Data} {items : List Data} (h : Denotes tokens d)
    (hItems : DenotesItems others items) :
    DenotesItems (tokens ++ .comma :: others) (d :: items) := by
  intro rest fuel hFuel
  simp only [List.length_append, List.length_cons] at hFuel
  obtain ⟨fuel, rfl⟩ := Nat.exists_eq_add_of_le' (show 1 ≤ fuel by omega)
  rw [List.append_assoc, itemsWithin, h _ fuel (by omega), List.cons_append]
  simp [hItems rest fuel (by omega)]

theorem Denotes.singletonField {key : String} {d : Data} (h : Denotes tokens d) :
    DenotesFields (.text key :: .colon :: tokens) [(key, d)] := by
  intro rest fuel hFuel
  simp only [List.length_cons] at hFuel
  obtain ⟨fuel, rfl⟩ := Nat.exists_eq_add_of_le' (show 1 ≤ fuel by omega)
  rw [List.cons_append, List.cons_append, fieldsWithin, h _ fuel (by omega)]
  rfl

theorem Denotes.consField {key : String} {d : Data} {fields : List (String × Data)}
    (h : Denotes tokens d) (hFields : DenotesFields others fields) :
    DenotesFields (.text key :: .colon :: tokens ++ .comma :: others) ((key, d) :: fields) := by
  intro rest fuel hFuel
  simp only [List.length_append, List.length_cons] at hFuel
  obtain ⟨fuel, rfl⟩ := Nat.exists_eq_add_of_le' (show 1 ≤ fuel by omega)
  rw [List.append_assoc, List.cons_append, List.cons_append, fieldsWithin, h _ fuel (by omega),
    List.cons_append]
  simp [hFields rest fuel (by omega)]

theorem DenotesItems.list {items : List Data} {first : Token} {behind : List Token}
    (h : DenotesItems (first :: behind) items) (hFirst : first ≠ .closeList) :
    Denotes (.openList :: first :: behind ++ [.closeList]) (.list items) := by
  intro rest fuel hFuel
  simp only [List.length_append, List.length_cons, List.length_nil] at hFuel
  obtain ⟨fuel, rfl⟩ := Nat.exists_eq_add_of_le' (show 1 ≤ fuel by omega)
  have hItems := h rest fuel (by simp only [List.length_cons]; omega)
  rw [List.cons_append] at hItems
  rw [List.append_assoc, List.singleton_append, List.cons_append, List.cons_append, valueWithin,
    hItems]
  · rfl
  · intro other hSame
    cases hSame
    exact hFirst rfl

theorem DenotesFields.record {key : String} {fields : List (String × Data)} {behind : List Token}
    (h : DenotesFields (.text key :: behind) fields) :
    Denotes (.openRecord :: .text key :: behind ++ [.closeRecord]) (.record fields) := by
  intro rest fuel hFuel
  simp only [List.length_append, List.length_cons, List.length_nil] at hFuel
  obtain ⟨fuel, rfl⟩ := Nat.exists_eq_add_of_le' (show 1 ≤ fuel by omega)
  have hFields := h rest fuel (by simp only [List.length_cons]; omega)
  rw [List.cons_append] at hFields
  rw [List.append_assoc, List.singleton_append, List.cons_append, List.cons_append, valueWithin,
    hFields]
  · rfl
  · intro other hSame
    cases hSame

/-! ### What the printer writes -/

/-- The entry of a record is read as the field. -/
def WritesField (entry : String) (field : String × Data) : Prop :=
  ∃ tokens, Spells entry.toList (.text field.1 :: .colon :: tokens) ∧ Denotes tokens field.2

/-- A field is written as its quoted key, a colon and its value, whatever
blanks stand about the colon. -/
theorem writesField {key value colon : String} {d : Data} (hColon : Spells colon.toList [.colon])
    (h : Writes value d) : WritesField (quote key ++ colon ++ value) (key, d) := by
  obtain ⟨tokens, hSpells, hDenotes⟩ := h
  refine ⟨tokens, ?_, hDenotes⟩
  rw [String.toList_append, String.toList_append]
  exact ((spells_quote key).append hColon).append hSpells

/-- Items behind each other, with a comma and blanks between two. -/
theorem exists_items {joint : List Char} {entries : List String} {items : List Data}
    (hJoint : Spells joint [.comma]) (h : List.Forall₂ Writes entries items) (hNil : items ≠ []) :
    ∃ first behind, first ≠ .closeList ∧
      Spells (joint.intercalate (entries.map String.toList)) (first :: behind) ∧
      DenotesItems (first :: behind) items := by
  induction h with
  | nil => exact absurd rfl hNil
  | @cons entry d entries items hEntry hEntries ih =>
      obtain ⟨tokens, hSpells, hDenotes⟩ := hEntry
      obtain ⟨first, behind, rfl, hFirst⟩ := hDenotes.exists_cons
      cases hEntries with
      | nil =>
          rw [List.map_singleton, List.intercalate_singleton]
          exact ⟨first, behind, hFirst, hSpells, hDenotes.singleton⟩
      | @cons next item entries items hNext hEntries =>
          obtain ⟨second, others, -, hOthers, hItems⟩ := ih (List.cons_ne_nil item items)
          rw [List.map_cons, List.map_cons, List.intercalate_cons_cons, ← List.map_cons,
            List.append_assoc]
          exact ⟨first, behind ++ .comma :: second :: others, hFirst,
            hSpells.append (hJoint.append hOthers), hDenotes.cons hItems⟩

/-- Fields joined by commas denote them in their order. A key comes first,
so that the record is not read as an empty one. -/
theorem exists_fields {joint : List Char} {entries : List String} {fields : List (String × Data)}
    (hJoint : Spells joint [.comma]) (h : List.Forall₂ WritesField entries fields)
    (hNil : fields ≠ []) :
    ∃ key behind, Spells (joint.intercalate (entries.map String.toList)) (.text key :: behind) ∧
      DenotesFields (.text key :: behind) fields := by
  induction h with
  | nil => exact absurd rfl hNil
  | @cons entry field entries fields hEntry hEntries ih =>
      obtain ⟨tokens, hSpells, hDenotes⟩ := hEntry
      cases hEntries with
      | nil =>
          rw [List.map_singleton, List.intercalate_singleton]
          exact ⟨field.1, _, hSpells, hDenotes.singletonField⟩
      | @cons next other entries fields hNext hEntries =>
          obtain ⟨key, others, hOthers, hFields⟩ := ih (List.cons_ne_nil other fields)
          rw [List.map_cons, List.map_cons, List.intercalate_cons_cons, ← List.map_cons,
            List.append_assoc]
          exact ⟨field.1, _, hSpells.append (hJoint.append hOthers), hDenotes.consField hFields⟩

variable {items : List Data} {fields : List (String × Data)} {entries : List String}

theorem writes_emptyList : Writes "[]" (.list []) := by
  refine ⟨[.openList, .closeList], spells_openList.append spells_closeList, fun rest fuel h => ?_⟩
  have hOne : 1 ≤ fuel := by simp only [List.length_cons] at h; omega
  obtain ⟨fuel, rfl⟩ := Nat.exists_eq_add_of_le' hOne
  rfl

theorem writes_emptyRecord : Writes "\x7b\x7d" (.record []) := by
  refine ⟨[.openRecord, .closeRecord], spells_openRecord.append spells_closeRecord,
    fun rest fuel h => ?_⟩
  have hOne : 1 ≤ fuel := by simp only [List.length_cons] at h; omega
  obtain ⟨fuel, rfl⟩ := Nat.exists_eq_add_of_le' hOne
  rfl

/-- A list with blanks between its brackets, commas and entries. -/
theorem writes_list (gap ending : String) (hGap : Spells gap.toList [])
    (hEnding : Spells ending.toList []) (h : List.Forall₂ Writes entries items)
    (hNil : items ≠ []) :
    Writes ("[" ++ gap ++ ("," ++ gap).intercalate entries ++ ending ++ "]") (.list items) := by
  obtain ⟨first, behind, hFirst, hSpells, hItems⟩ :=
    exists_items (spells_comma.append hGap) h hNil
  refine ⟨.openList :: first :: behind ++ [.closeList], ?_, hItems.list hFirst⟩
  simp only [String.toList_append, String.toList_intercalate]
  simpa using
    (((spells_openList.append hGap).append hSpells).append hEnding).append spells_closeList

/-- A record with blanks between its brackets, commas and entries. -/
theorem writes_record (gap ending : String) (hGap : Spells gap.toList [])
    (hEnding : Spells ending.toList []) (h : List.Forall₂ WritesField entries fields)
    (hNil : fields ≠ []) :
    Writes ("\x7b" ++ gap ++ ("," ++ gap).intercalate entries ++ ending ++ "\x7d")
      (.record fields) := by
  obtain ⟨key, behind, hSpells, hFields⟩ := exists_fields (spells_comma.append hGap) h hNil
  refine ⟨.openRecord :: .text key :: behind ++ [.closeRecord], ?_, hFields.record⟩
  simp only [String.toList_append, String.toList_intercalate]
  simpa using
    (((spells_openRecord.append hGap).append hSpells).append hEnding).append spells_closeRecord

/-- A value that is one token on its own is written by the text of that
token. -/
theorem writes_token {text : String} {token : Token} {d : Data}
    (hSpells : Spells text.toList [token])
    (h : ∀ rest fuel, valueWithin (fuel + 1) (token :: rest) = some (d, rest)) :
    Writes text d := by
  refine ⟨[token], hSpells, fun rest fuel hFuel => ?_⟩
  have hOne : 1 ≤ fuel := by simp only [List.length_cons] at hFuel; omega
  obtain ⟨fuel, rfl⟩ := Nat.exists_eq_add_of_le' hOne
  exact h rest fuel

theorem writes_null : Writes "null" .null :=
  writes_token (spells_token (by decide) fun _ => rfl) fun _ _ => rfl

theorem writes_flag (value : Bool) : Writes (if value then "true" else "false") (.flag value) := by
  cases value <;> exact writes_token (spells_token (by decide) fun _ => rfl) fun _ _ => rfl

theorem writes_text (value : String) : Writes (quote value) (.text value) :=
  writes_token (spells_quote value) fun _ _ => rfl

/-- Data without a number in it. -/
inductive Numberless : Data → Prop
  | null : Numberless .null
  | flag (value : Bool) : Numberless (.flag value)
  | text (value : String) : Numberless (.text value)
  | list {items : List Data} (h : ∀ d ∈ items, Numberless d) : Numberless (.list items)
  | record {fields : List (String × Data)} (h : ∀ field ∈ fields, Numberless field.2) :
      Numberless (.record fields)

/-- If each item is written by its text, the list of texts writes the
items. -/
theorem writesItems {text : Data → String} (h : ∀ d ∈ items, Writes (text d) d) :
    List.Forall₂ Writes (items.map text) items :=
  List.forall₂_map_left_iff.mpr (List.forall₂_same.mpr h)

/-- The same for fields, with either of the two ways to write a colon. -/
theorem writesFields {text : Data → String} {entry : String × Data → String} (colon : String)
    (hColon : Spells colon.toList [.colon])
    (hEntry : ∀ field, entry field = quote field.1 ++ colon ++ text field.2)
    (h : ∀ field ∈ fields, Writes (text field.2) field.2) :
    List.Forall₂ WritesField (fields.map entry) fields := by
  refine List.forall₂_map_left_iff.mpr (List.forall₂_same.mpr fun field hField => ?_)
  rw [hEntry]
  exact writesField hColon (h field hField)

/-! ### Over several lines -/

theorem prettyItems_eq (level : Nat) (items : List Data) :
    prettyItems level items = items.map (prettyAt level) := by
  induction items with
  | nil => rfl
  | cons d items ih => rw [prettyItems, ih, List.map_cons]

theorem prettyFields_eq (level : Nat) (fields : List (String × Data)) :
    prettyFields level fields =
      fields.map fun field => quote field.1 ++ ": " ++ prettyAt level field.2 := by
  induction fields with
  | nil => rfl
  | cons field fields ih => rw [prettyFields, ih, List.map_cons]

/-- A break with its indentation spells nothing, however deep. -/
theorem spells_newline (level : Nat) : Spells (newline level).toList [] :=
  spells_blanks (by simp [newline, isSpace])

theorem spells_spacedColon : Spells ": ".toList [.colon] :=
  spells_colon.append (spells_blanks (show ∀ c ∈ [' '], isSpace c = true by simp [isSpace]))

/-- What is written over several lines is read back, at any level. -/
theorem writes_prettyAt {d : Data} (h : Numberless d) : ∀ level, Writes (prettyAt level d) d := by
  induction h with
  | null => exact fun level => writes_null
  | flag value => exact fun level => writes_flag value
  | text value => exact fun level => writes_text value
  | @list items _ ih =>
      intro level
      have hItems := writesItems fun d hd => ih d hd (level + 1)
      rw [prettyAt, prettyItems_eq]
      cases items with
      | nil => exact writes_emptyList
      | cons d items =>
          exact writes_list _ _ (spells_newline (level + 1)) (spells_newline level) hItems
            (List.cons_ne_nil d items)
  | @record fields _ ih =>
      intro level
      have hFields := writesFields ": " spells_spacedColon (fun _ => rfl)
        fun field hField => ih field hField (level + 1)
      rw [prettyAt, prettyFields_eq]
      cases fields with
      | nil => exact writes_emptyRecord
      | cons field fields =>
          exact writes_record _ _ (spells_newline (level + 1)) (spells_newline level) hFields
            (List.cons_ne_nil field fields)

/-- Printing over several lines is undone by parsing, for data without
numbers. -/
theorem parse?_pretty {d : Data} (h : Numberless d) : parse? (pretty d) = some d :=
  (writes_prettyAt h 0).parse?

/-! ### On one line -/

theorem compactItems_eq (items : List Data) : compactItems items = items.map compact := by
  induction items with
  | nil => rfl
  | cons d items ih => rw [compactItems, ih, List.map_cons]

theorem compactFields_eq (fields : List (String × Data)) :
    compactFields fields = fields.map fun field => quote field.1 ++ ":" ++ compact field.2 := by
  induction fields with
  | nil => rfl
  | cons field fields ih => rw [compactFields, ih, List.map_cons]

/-- What is written on one line is read back. -/
theorem writes_compact {d : Data} (h : Numberless d) : Writes (compact d) d := by
  induction h with
  | null => exact writes_null
  | flag value => exact writes_flag value
  | text value => exact writes_text value
  | @list items _ ih =>
      rw [compact, compactItems_eq]
      cases items with
      | nil => exact writes_emptyList
      | cons d items =>
          simpa using writes_list "" "" spells_nil spells_nil
            (writesItems ih) (List.cons_ne_nil d items)
  | @record fields _ ih =>
      rw [compact, compactFields_eq]
      cases fields with
      | nil => exact writes_emptyRecord
      | cons field fields =>
          simpa using writes_record "" "" spells_nil spells_nil
            (writesFields ":" spells_colon (fun _ => rfl) ih) (List.cons_ne_nil field fields)

/-- Printing on one line is undone by parsing too. The two layouts differ in
blanks between tokens only. -/
theorem parse?_compact {d : Data} (h : Numberless d) : parse? (compact d) = some d :=
  (writes_compact h).parse?

end ScriptBindings.Json
