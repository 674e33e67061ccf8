import ScriptBindings.Proofs.Bracket.Grouping
import ScriptBindings.Proofs.Bracket.Outside
import ScriptBindings.Proofs.Declaration.Parsed
import ScriptBindings.Proofs.Text.Trimming

/-! What the lists of a signature are read as. Each entry between commas
outside all brackets gives one parameter or type parameter, in order, except
for entries named `this`. What an entry says is described by its text
alone. -/
namespace ScriptBindings.Signature

open Text Outcomes ScriptBindings.Bracket

/-! ### Entries as texts -/

def Blanks (text : List Char) : Prop :=
  ∀ c ∈ text, isBlank c = true

/-- The entries of a list are its pieces between the commas outside all
brackets, without the blanks at their ends. Blank pieces are no entries. -/
def HasEntries (list : List Char) (entries : List (List Char)) : Prop :=
  ∃ pieces, pieces ≠ [] ∧ list = [','].intercalate pieces ∧
    (∀ piece ∈ pieces, Balanced piece ∧ Lacks [','] piece) ∧
    entries = (pieces.map trim).filter (!·.isEmpty)

/-- The name of a parameter, whether it may be left out, and the text of its
type. -/
structure ParameterEntry where
  name : List Char
  optional : Bool
  type : Option (List Char)

namespace ParameterEntry

/-- What stands before the type: the name, `...` before it or not, and `?`
behind it if the parameter may be left out. -/
def Declares (e : ParameterEntry) (declared : List Char) : Prop :=
  ∃ dots front gap back, declared =
      dots ++ (front ++ (e.name ++ (gap ++ ((if e.optional then ['?'] else []) ++ back)))) ∧
    (dots = [] ∨ dots = ['.', '.', '.']) ∧ Blanks front ∧ Blanks gap ∧ Blanks back

/-- The entry is written so. Its type is what stands behind the first `:`
outside all brackets. -/
structure Reads (entry : List Char) (e : ParameterEntry) : Prop where
  name : isName e.name = true
  text : ∃ declared, entry = declared ++ e.type.elim [] (':' :: ·) ∧ e.Declares declared ∧
    Balanced declared ∧ Lacks [':'] declared

/-- The parameter has the name, the mark and the type of the entry. -/
structure Gives (generics : List String) (e : ParameterEntry) (p : Parameter) : Prop where
  name : p.name = String.ofList e.name
  optional : p.optional = e.optional
  type : parameterType generics e.type = .ok p.type

end ParameterEntry

/-- The name of a type parameter and the text of its constraint. -/
structure GenericEntry where
  name : List Char
  constraint : Option (List Char)

namespace GenericEntry

/-- Nowhere outside all brackets is there an `=` that does not begin an
arrow. -/
def LacksDefault (text : List Char) : Prop :=
  ∀ front back, text = front ++ '=' :: back → Balanced front → back.head? = some '>'

/-- What stands before the name: nothing or the word `const`. -/
def Modifies (modifier entry : List Char) : Prop :=
  (∃ gap, modifier = "const".toList ++ gap ∧ gap ≠ [] ∧ Blanks gap) ∨
    (modifier = [] ∧ ∀ c rest, entry = "const".toList ++ c :: rest → isBlank c = false)

/-- What stands before the default: the name, and the constraint behind the
word `extends`. -/
inductive Declares (e : GenericEntry) : List Char → Prop where
  | free {back : List Char} (hNone : e.constraint = none) (hBack : Blanks back) :
      Declares e (e.name ++ back)
  | constrained {gap behind constraint back : List Char} (hSome : e.constraint = some constraint)
      (hGap : gap ≠ [] ∧ Blanks gap) (hBehind : behind ≠ [] ∧ Blanks behind) (hBack : Blanks back) :
      Declares e (e.name ++ (gap ++ ("extends".toList ++ (behind ++ (constraint ++ back)))))

/-- The entry is written so. Its default begins with the first `=` outside
all brackets that does not begin an arrow. -/
structure Reads (entry : List Char) (e : GenericEntry) : Prop where
  name : isName e.name = true
  text : ∃ modifier declared default, entry = modifier ++ (declared ++ default) ∧
    Modifies modifier entry ∧ e.Declares declared ∧ Balanced declared ∧ LacksDefault declared ∧
    (default = [] ∨ ∃ value, default = '=' :: value ∧ value.head? ≠ some '>')

/-- The type parameter has the name and the constraint of the entry. -/
structure Gives (names : List String) (e : GenericEntry) (g : GenericParameter) : Prop where
  name : g.name = String.ofList e.name
  constraint : match e.constraint with
    | none => g.constraint = none
    | some text => ∃ type, readType names text = .ok type ∧ g.constraint = some type

end GenericEntry

/-- The type parameters are those of the entries of the clause, in order. -/
def GenericsOf (clause : List Char) (generics : List GenericParameter) : Prop :=
  ∃ entries written, HasEntries clause entries ∧ List.Forall₂ GenericEntry.Reads entries written ∧
    List.Forall₂ (GenericEntry.Gives (generics.map (·.name))) written generics

/-- The parameters are those of the entries of the list that are not named
`this`, in order. -/
def ParametersOf (generics : List String) (list : List Char) (parameters : List Parameter) :
    Prop :=
  ∃ entries written, HasEntries list entries ∧ List.Forall₂ ParameterEntry.Reads entries written ∧
    List.Forall₂ (ParameterEntry.Gives generics) (written.filter (·.name != "this".toList))
      parameters

/-- A signature is a name, a clause in angle brackets or none, a list in
parentheses, and what follows. -/
structure Frame (text name : List Char) (clause : Option (List Char)) (list tail : List Char) :
    Prop where
  named : isName name = true
  written : ∃ gap behind, Blanks gap ∧ Blanks behind ∧
    text = name ++ (gap ++ (clause.elim [] (fun inside => '<' :: (inside ++ ['>'])) ++
      (behind ++ '(' :: (list ++ ')' :: tail))))
  enclosed : ∀ inside ∈ clause, Balanced inside ∧ inside.getLast? ≠ some '='
  balanced : Balanced list

variable {text entry inside tail declared : List Char} {generics : List String}

/-- The entries of a list are the pieces between its commas, without their
blanks. -/
theorem hasEntries_of_entries {found : List (List Char)} (h : entries text = .ok found) :
    HasEntries text found := by
  obtain ⟨pieces, hPieces, h⟩ := bind_ok h
  cases h
  obtain ⟨hNil, hText, hWhole⟩ := (splitTop_eq_ok_iff (by decide)).mp (mapError_ok hPieces)
  exact ⟨pieces, hNil, hText, fun piece hPiece => whole_iff.mp (hWhole piece hPiece), rfl⟩

/-! ### Parameters -/

/-- What is declared holds no bracket, no quote and no `:`. -/
theorem ParameterEntry.Declares.plain {e : ParameterEntry} (h : e.Declares declared)
    (hName : isName e.name = true) : ∀ c ∈ declared, isPlain c = true ∧ c ≠ ':' := by
  obtain ⟨dots, front, gap, back, rfl, hDots, hFront, hGap, hBack⟩ := h
  have hBlank {blanks : List Char} (hBlanks : Blanks blanks) :
      ∀ c ∈ blanks, isPlain c = true ∧ c ≠ ':' := by
    refine fun c hc => ⟨isPlain_of_isBlank (hBlanks c hc), ?_⟩
    rintro rfl
    cases hBlanks _ hc
  have hMarks {marks : List Char} (h : marks.all (fun c => isPlain c && c != ':') = true) :
      ∀ c ∈ marks, isPlain c = true ∧ c ≠ ':' := by simpa using h
  simp only [List.forall_mem_append]
  refine ⟨?_, hBlank hFront, fun c hc => ⟨isPlain_of_isName hName c hc, ?_⟩, hBlank hGap, ?_,
    hBlank hBack⟩
  · rcases hDots with rfl | rfl <;> exact hMarks (by decide)
  · rintro rfl
    cases isNameChar_of_isName hName hc
  · cases e.optional <;> exact hMarks (by decide)

/-- What stands before a type is read as a name with its marks. -/
theorem declares_of_optionalName {dots before : List Char} {type : Option (List Char)}
    (hDots : dots = [] ∨ dots = ['.', '.', '.'])
    (hBefore : ∃ front back, before = front ++ (declared ++ back) ∧ Blanks front ∧ Blanks back) :
    ParameterEntry.Declares ⟨(optionalName declared).1, (optionalName declared).2, type⟩
      (dots ++ before) := by
  obtain ⟨front, back, rfl, hFront, hBack⟩ := hBefore
  unfold optionalName
  split
  · next name hMark =>
      obtain rfl := before?_eq_some_iff.mp hMark
      obtain ⟨gap, hName, hGap⟩ := exists_trimEnd name
      refine ⟨dots, front, gap, back, ?_, hDots, hFront, hGap, hBack⟩
      conv_lhs => rw [hName]
      simp
  · exact ⟨dots, front, [], back, by simp, hDots, hFront, by simp [Blanks], hBack⟩

/-- An entry may begin with three dots, which are no part of the name. -/
theorem exists_dots (entry : List Char) :
    ∃ dots rest, (dots = [] ∨ dots = ['.', '.', '.']) ∧ entry = dots ++ rest ∧
      (after? ['.', '.', '.'] entry).getD entry = rest := by
  cases hAfter : after? ['.', '.', '.'] entry with
  | none => exact ⟨[], entry, Or.inl rfl, rfl, rfl⟩
  | some rest => exact ⟨_, rest, Or.inr rfl, after?_eq_some_iff.mp hAfter, rfl⟩

/-- The parts of an entry are its name with its marks and what stands behind
the first `:`. -/
theorem reads_of_parameterParts {type : Option (List Char)}
    (h : parameterParts entry = .ok (declared, type))
    (hName : isName (optionalName declared).1 = true) :
    ParameterEntry.Reads entry ⟨(optionalName declared).1, (optionalName declared).2, type⟩ := by
  obtain ⟨dots, rest, hDots, hEntry, hRest⟩ := exists_dots entry
  unfold parameterParts at h
  rw [hRest] at h
  obtain ⟨before, hText, hBefore⟩ : ∃ before, rest = before ++ type.elim [] (':' :: ·) ∧
      ∃ front back, before = front ++ (declared ++ back) ∧ Blanks front ∧ Blanks back := by
    obtain ⟨found, hFound, h⟩ := bind_ok h
    cases found with
    | none =>
        cases h
        exact ⟨_, (List.append_nil _).symm, [], [], (List.append_nil _).symm, by simp [Blanks],
          by simp [Blanks]⟩
    | some cut =>
        obtain ⟨before, after⟩ := cut
        cases h
        obtain ⟨c, rfl, hColon, -⟩ := breakTop_some (mapError_ok hFound)
        rw [beq_iff_eq.mp hColon]
        exact ⟨before, rfl, exists_trim before⟩
  have hDeclares : ParameterEntry.Declares ⟨_, _, type⟩ (dots ++ before) :=
    declares_of_optionalName hDots hBefore
  have hPlain := hDeclares.plain hName
  refine ⟨hName, dots ++ before, by rw [hEntry, hText, List.append_assoc], hDeclares,
    .of_plain fun c hc => (hPlain c hc).1, .of_not_mem List.mem_cons_self fun hc => ?_⟩
  exact (hPlain ':' hc).2 rfl

/-- An entry that is read gives one parameter, unless it is named `this`. -/
theorem exists_reads_of_readParameter {found : Option Parameter}
    (h : readParameter generics entry = .ok found) :
    ∃ e, ParameterEntry.Reads entry e ∧
      ((e.name = "this".toList ∧ found = none) ∨
        (e.name ≠ "this".toList ∧ ∃ p, found = some p ∧ e.Gives generics p)) := by
  rw [readParameter_eq] at h
  obtain ⟨⟨declared, type⟩, hParts, h⟩ := bind_ok h
  dsimp only [namedParameter] at h
  split at h
  · next hName =>
      refine ⟨_, reads_of_parameterParts hParts hName, ?_⟩
      split at h
      · next hThis =>
          cases h
          exact Or.inl ⟨beq_iff_eq.mp hThis, rfl⟩
      · next hOther =>
          obtain ⟨t, hType, rfl⟩ := map_ok h
          exact Or.inr ⟨by simpa using hOther, _, rfl, rfl, rfl, hType⟩
  · cases h

/-- What was read of the entries says how each of them was written and what
it gives. -/
theorem exists_written_of_readParameter {list : List (List Char)} {read : List (Option Parameter)}
    (h : List.Forall₂ (fun entry found => readParameter generics entry = .ok found) list read) :
    ∃ written, List.Forall₂ ParameterEntry.Reads list written ∧
      List.Forall₂ (ParameterEntry.Gives generics) (written.filter (·.name != "this".toList))
        (read.filterMap id) := by
  induction h with
  | nil => exact ⟨[], .nil, .nil⟩
  | cons hEntry _ ih =>
      obtain ⟨written, hReads, hGives⟩ := ih
      obtain ⟨e, hText, ⟨hThis, rfl⟩ | ⟨hOther, p, rfl, hParameter⟩⟩ :=
        exists_reads_of_readParameter hEntry
      · refine ⟨e :: written, .cons hText hReads, ?_⟩
        rw [List.filter_cons_of_neg (by simp [hThis])]
        exact hGives
      · refine ⟨e :: written, .cons hText hReads, ?_⟩
        rw [List.filter_cons_of_pos (by simpa using hOther)]
        exact .cons hParameter hGives

/-- The parameters that were read are those of the text, one for each entry
that declares one, in order. -/
theorem parametersOf_of_readParameters {parameters : List Parameter}
    (h : readParameters generics text = .ok parameters) :
    ParametersOf generics text parameters := by
  obtain ⟨list, hEntries, h⟩ := bind_ok h
  obtain ⟨read, hRead, h⟩ := bind_ok h
  cases h
  obtain ⟨written, hReads, hGives⟩ := exists_written_of_readParameter (mapM_ok_iff.mp hRead)
  exact ⟨list, written, hasEntries_of_entries hEntries, hReads, hGives⟩

/-! ### Type parameters -/

/-- A search for an equals sign outside of brackets that finds none shows
that there is no default. -/
theorem lacksDefault_of_breakTop_none
    (h : breakTop (fun c rest => c == '=' && rest.head? != some '>') text = .ok none) :
    GenericEntry.LacksDefault text := by
  intro front back hText hFront
  by_contra hHead
  obtain ⟨inner, behind, hNone, -⟩ := exists_cut_of_accepts h hText hFront
    (fun flag => ⟨true, step_equals flag⟩) (by simpa using hHead)
  cases hNone

/-- The text before the first default has none. -/
theorem lacksDefault_of_breakTop_some {before after : List Char}
    (h : breakTop (fun c rest => c == '=' && rest.head? != some '>') (before ++ '=' :: after) =
      .ok (some (before, after))) :
    GenericEntry.LacksDefault before := by
  rintro front back rfl hFront
  by_contra hHead
  have hLater : (back ++ '=' :: after).head? ≠ some '>' := by
    cases back with
    | nil => simp
    | cons => exact hHead
  rw [List.append_assoc, List.cons_append] at h
  obtain ⟨inner, behind, hSame, hLength⟩ := exists_cut_of_accepts h rfl hFront
    (fun flag => ⟨true, step_equals flag⟩) (by simpa using hLater)
  cases hSame
  rw [List.length_append, List.length_cons] at hLength
  omega

/-- What stands before the default is all of an entry, if it has none. -/
theorem exists_default_of_breakTop {found : Option (List Char × List Char)}
    (h : breakTop (fun c rest => c == '=' && rest.head? != some '>') text = .ok found) :
    ∃ declared default, found.elim text Prod.fst = declared ∧ text = declared ++ default ∧
      Balanced declared ∧ GenericEntry.LacksDefault declared ∧
      (default = [] ∨ ∃ value, default = '=' :: value ∧ value.head? ≠ some '>') := by
  cases found with
  | none =>
      exact ⟨text, [], rfl, (List.append_nil text).symm,
        balanced_iff.mpr (exists_run_of_breakTopFrom_none h), lacksDefault_of_breakTop_none h,
        Or.inl rfl⟩
  | some cut =>
      obtain ⟨before, after⟩ := cut
      obtain ⟨c, rfl, hAccepts, hBefore⟩ := breakTop_some h
      simp only [Bool.and_eq_true, beq_iff_eq, bne_iff_ne] at hAccepts
      obtain ⟨rfl, hAfter⟩ := hAccepts
      exact ⟨before, '=' :: after, rfl, rfl, hBefore, lacksDefault_of_breakTop_some h,
        Or.inr ⟨after, rfl, hAfter⟩⟩

/-- An entry may begin with a modifier, which is no part of the name. -/
theorem exists_modifier (entry : List Char) :
    ∃ modifier rest, entry = modifier ++ rest ∧ GenericEntry.Modifies modifier entry ∧
      (afterWord? "const" entry).getD entry = rest := by
  cases hAfter : afterWord? "const" entry with
  | none =>
      refine ⟨[], entry, rfl, Or.inr ⟨rfl, fun c rest hText => ?_⟩, rfl⟩
      rw [Bool.eq_false_iff]
      intro hBlank
      rw [afterWord?_eq_some_iff.mpr ⟨c, rest, hText, hBlank, rfl⟩] at hAfter
      cases hAfter
  | some rest =>
      obtain ⟨c, tail, hText, hBlank, rfl⟩ := afterWord?_eq_some_iff.mp hAfter
      obtain ⟨gap, hTail, hGap⟩ := exists_trimStart tail
      refine ⟨"const".toList ++ c :: gap, trimStart tail, ?_,
        Or.inl ⟨c :: gap, rfl, List.cons_ne_nil c gap, List.forall_mem_cons.mpr ⟨hBlank, hGap⟩⟩,
        rfl⟩
      rw [hText, List.append_assoc, List.cons_append, ← hTail]

/-- An entry without its modifier and its default. -/
theorem exists_declared_of_genericEntry {left : List Char} (h : genericEntry entry = .ok left) :
    ∃ modifier back default, entry = modifier ++ (left ++ back ++ default) ∧ Blanks back ∧
      GenericEntry.Modifies modifier entry ∧ Balanced (left ++ back) ∧
      GenericEntry.LacksDefault (left ++ back) ∧
      (default = [] ∨ ∃ value, default = '=' :: value ∧ value.head? ≠ some '>') := by
  obtain ⟨modifier, rest, hEntry, hModifier, hRest⟩ := exists_modifier entry
  unfold genericEntry at h
  rw [hRest] at h
  obtain ⟨found, hFound, h⟩ := bind_ok h
  obtain ⟨declared, default, hDeclared, rfl, hBalanced, hLacks, hDefault⟩ :=
    exists_default_of_breakTop (mapError_ok hFound)
  obtain ⟨back, rfl, hBack⟩ : ∃ back, declared = left ++ back ∧ Blanks back := by
    rw [← hDeclared]
    cases found with
    | none =>
        cases h
        exact ⟨[], (List.append_nil _).symm, by simp [Blanks]⟩
    | some cut =>
        cases h
        exact exists_trimEnd cut.1
  exact ⟨modifier, back, default, hEntry, hBack, hModifier, hBalanced, hLacks, hDefault⟩

theorem exists_gap_of_afterName (left : List Char) :
    ∃ gap, left = left.takeWhile isNameChar ++ (gap ++ afterName left) ∧ Blanks gap := by
  obtain ⟨gap, hRest, hGap⟩ := exists_trimStart (left.dropWhile isNameChar)
  refine ⟨gap, ?_, hGap⟩
  rw [afterName, ← hRest, List.takeWhile_append_dropWhile]

/-- An entry that is only a name declares it without a constraint. -/
theorem declares_free {left back : List Char} (hEmpty : afterName left = []) (hBack : Blanks back) :
    GenericEntry.Declares ⟨left.takeWhile isNameChar, none⟩ (left ++ back) := by
  obtain ⟨gap, hLeft, hGap⟩ := exists_gap_of_afterName left
  rw [hEmpty, List.append_nil] at hLeft
  have hWhole : left ++ back = left.takeWhile isNameChar ++ (gap ++ back) := by
    conv_lhs => rw [hLeft, List.append_assoc]
  rw [hWhole]
  exact .free rfl (List.forall_mem_append.mpr ⟨hGap, hBack⟩)

/-- The word `extends` is no part of the name, so that a blank stands
between them. -/
theorem declares_constrained {left back constraint : List Char}
    (hExtends : afterWord? "extends" (afterName left) = some constraint) (hBack : Blanks back) :
    GenericEntry.Declares ⟨left.takeWhile isNameChar, some constraint⟩ (left ++ back) := by
  obtain ⟨gap, hLeft, hGap⟩ := exists_gap_of_afterName left
  obtain ⟨c, tail, hWord, hBlank, rfl⟩ := afterWord?_eq_some_iff.mp hExtends
  obtain ⟨behind, hTail, hBehind⟩ := exists_trimStart tail
  have hGapNil : gap ≠ [] := by
    rintro rfl
    have hRest : left.dropWhile isNameChar = "extends".toList ++ c :: tail := by
      rw [List.nil_append, hWord] at hLeft
      have hSplit := (List.takeWhile_append_dropWhile (p := isNameChar) (l := left)).trans hLeft
      exact List.append_cancel_left hSplit
    have hHead := List.head?_dropWhile_not isNameChar left
    rw [hRest] at hHead
    cases (show isNameChar 'e' = false from hHead)
  have hWhole : left ++ back = left.takeWhile isNameChar ++ (gap ++
      ("extends".toList ++ (c :: behind ++ (trimStart tail ++ back)))) := by
    conv_lhs => rw [hLeft, hWord, hTail]
    simp
  rw [hWhole]
  exact .constrained rfl ⟨hGapNil, hGap⟩
    ⟨List.cons_ne_nil c behind, List.forall_mem_cons.mpr ⟨hBlank, hBehind⟩⟩ hBack

/-- What stands behind the name is a constraint or nothing. -/
theorem declares_of_constrainedName {left back : List Char} {name : String}
    {constraint : Option (List Char)} (h : constrainedName left = .ok (name, constraint))
    (hBack : Blanks back) :
    isName name.toList = true ∧ GenericEntry.Declares ⟨name.toList, constraint⟩ (left ++ back) := by
  unfold constrainedName at h
  split at h
  · next hName =>
      split at h
      · next hEmpty =>
          cases h
          rw [String.toList_ofList]
          exact ⟨hName, declares_free (List.isEmpty_iff.mp hEmpty) hBack⟩
      · split at h
        · next hExtends =>
            cases h
            rw [String.toList_ofList]
            exact ⟨hName, declares_constrained hExtends hBack⟩
        · cases h
  · cases h

/-- The parts of an entry are read as it is written: its modifier, its name,
its constraint and its default. -/
theorem reads_of_genericParts {name : String} {constraint : Option (List Char)}
    (h : genericParts entry = .ok (name, constraint)) :
    GenericEntry.Reads entry ⟨name.toList, constraint⟩ := by
  rw [genericParts_eq] at h
  obtain ⟨left, hLeft, h⟩ := bind_ok h
  obtain ⟨modifier, back, default, hEntry, hBack, hModifier, hBalanced, hLacks, hDefault⟩ :=
    exists_declared_of_genericEntry hLeft
  obtain ⟨hName, hDeclares⟩ := declares_of_constrainedName h hBack
  exact ⟨hName, modifier, left ++ back, default, hEntry, hModifier, hDeclares, hBalanced, hLacks,
    hDefault⟩

/-- The parameter that is read of an entry has its name, and its constraint
where there is one. -/
theorem gives_of_readGeneric {names : List String} {part : String × Option (List Char)}
    {g : GenericParameter} (h : readGeneric names part = .ok g) :
    GenericEntry.Gives names ⟨part.1.toList, part.2⟩ g := by
  obtain ⟨name, constraint⟩ := part
  cases constraint with
  | none =>
      cases h
      exact ⟨String.ofList_toList.symm, rfl⟩
  | some text =>
      obtain ⟨type, hType, h⟩ := bind_ok h
      cases h
      exact ⟨String.ofList_toList.symm, type, hType, rfl⟩

/-- The type parameters that were read are those of the text, one for each
entry in order. All of their names are in scope of each constraint. -/
theorem genericsOf_of_readGenerics {found : List GenericParameter}
    (h : readGenerics text = .ok found) : GenericsOf text found := by
  obtain ⟨list, hEntries, h⟩ := bind_ok h
  obtain ⟨declared, hDeclared, h⟩ := bind_ok h
  have hRead := mapM_ok_iff.mp h
  refine ⟨list, declared.map fun part => ⟨part.1.toList, part.2⟩, hasEntries_of_entries hEntries,
    ?_, ?_⟩
  · rw [List.forall₂_map_right_iff]
    exact (mapM_ok_iff.mp hDeclared).imp fun _ _ hPart => reads_of_genericParts hPart
  · rw [List.forall₂_map_left_iff, names_of_readGeneric hRead]
    exact hRead.imp fun _ _ hGeneric => gives_of_readGeneric hGeneric

/-! ### Signatures -/

/-- The clause of a signature, if there is one, is what stands between its
angle brackets. -/
theorem exists_clause_of_readGenericClause {found : List GenericParameter} {rest : List Char}
    (h : readGenericClause text = .ok (found, rest)) :
    ∃ (clause : Option (List Char)) (behind : List Char),
      text = clause.elim [] (fun inside => '<' :: (inside ++ ['>'])) ++ (behind ++ rest) ∧
      Blanks behind ∧ (∀ inside ∈ clause, Balanced inside ∧ inside.getLast? ≠ some '=') ∧
      GenericsOf (clause.getD []) found := by
  unfold readGenericClause at h
  split at h
  · next hAngle =>
      obtain ⟨tail, rfl⟩ := List.head?_eq_some_iff.mp (beq_iff_eq.mp hAngle)
      obtain ⟨group, hGroup, h⟩ := bind_ok h
      cases group with
      | none => cases h
      | some cut =>
          obtain ⟨inside, after⟩ := cut
          obtain ⟨list, hList, h⟩ := bind_ok h
          cases h
          obtain ⟨closer, rfl, hCloser, hInside, hLast⟩ :=
            group?_some (show opening? '<' = some .angle from rfl) (mapError_ok hGroup)
          obtain rfl := Cursor.closing?_eq_angle_iff.mp hCloser
          obtain ⟨behind, hAfter, hBehind⟩ := exists_trimStart after
          refine ⟨some inside, behind, ?_, hBehind, ?_, genericsOf_of_readGenerics hList⟩
          · rw [← hAfter]
            simp
          · rintro _ ⟨⟩
            exact ⟨hInside, hLast rfl⟩
  · cases h
    have hNothing : Balanced [] ∧ Lacks [','] [] :=
      ⟨.nil, .of_not_mem List.mem_cons_self List.not_mem_nil⟩
    have hEntries : HasEntries [] [] := ⟨[[]], by simp, rfl, by simpa using hNothing, rfl⟩
    exact ⟨none, [], rfl, by simp [Blanks], nofun, [], [], hEntries, .nil, .nil⟩

/-- The type parameters and the parameters of a signature are those that the
entries of its lists declare, one for each entry and in their order. -/
theorem entries_of_parse {f : Signature} (h : parse text = .ok f) :
    ∃ clause list tail, Frame text f.name.toList clause list tail ∧
      GenericsOf (clause.getD []) f.generics ∧
      ParametersOf f.genericNames list f.parameters := by
  rw [parse_eq] at h
  split at h
  · next hName =>
      obtain ⟨⟨generics, rest⟩, hClause, h⟩ := bind_ok h
      dsimp only at h
      split at h
      · next hRound =>
          obtain ⟨group, hGroup, h⟩ := bind_ok h
          cases group with
          | none => cases h
          | some cut =>
              obtain ⟨inside, tail⟩ := cut
              obtain ⟨parameters, hParameters, h⟩ := bind_ok h
              obtain ⟨returnType, -, h⟩ := bind_ok h
              cases h
              obtain ⟨list, rfl⟩ := List.head?_eq_some_iff.mp hRound
              obtain ⟨closer, rfl, hCloser, hInside, -⟩ :=
                group?_some (show opening? '(' = some .round from rfl) (mapError_ok hGroup)
              obtain rfl := Cursor.closing?_eq_round_iff.mp hCloser
              obtain ⟨clause, behind, hText, hBehind, hEnclosed, hGenerics⟩ :=
                exists_clause_of_readGenericClause hClause
              obtain ⟨gap, hAfter, hGap⟩ := exists_trimStart (text.dropWhile isNameChar)
              refine ⟨clause, inside, tail,
                ⟨?_, ⟨gap, behind, hGap, hBehind, ?_⟩, hEnclosed, hInside⟩,
                hGenerics, parametersOf_of_readParameters hParameters⟩
              · rwa [String.toList_ofList]
              · rw [String.toList_ofList, ← hText, afterName, ← hAfter,
                  List.takeWhile_append_dropWhile]
      · cases h
  · cases h

/-- An arrow begins no default, and the receiver is no parameter. -/
theorem entries_of_parse_receiver :
    let f : Signature :=
      { name := "pick"
        generics := [⟨"K", some (.reference "(k) => V")⟩, ⟨"V", none⟩]
        parameters := [⟨"keys", .genericRef "K", true⟩, ⟨"last", .primitive .any, false⟩]
        returnType := .primitive .any
        doc := none }
    let text := "pick<const K extends (k) => V = any, V>(this: W, ...keys?: K, last)".toList
    parse text = .ok f ∧ ∃ clause list tail, Frame text f.name.toList clause list tail ∧
      GenericsOf (clause.getD []) f.generics ∧
      ParametersOf f.genericNames list f.parameters := by
  intro f text
  have hRead : parse text = .ok f := by decide +kernel
  exact ⟨hRead, entries_of_parse hRead⟩

end ScriptBindings.Signature
