import ScriptBindings.Proofs.Declaration.Reading
import ScriptBindings.Proofs.TypeExpr.RoundTrip

/-! Signatures written out with canonical texts, and read back from what was
written. Names hold none of the characters between them, so that every list
is cut where it was joined. -/
namespace ScriptBindings

open Text ScriptBindings.Bracket Outcomes TypeExpr

/-! ### What is written -/

def GenericParameter.declaration (g : GenericParameter) : String :=
  match g.constraint with
  | none => g.name
  | some constraint => g.name ++ " extends " ++ constraint.canonical

def Parameter.declaration (p : Parameter) : String :=
  p.name ++ (if p.optional then "?" else "") ++ ": " ++ p.type.canonical

namespace Signature

/-- The clause of the type parameters, which is left out when there are
none. -/
def genericClause (f : Signature) : String :=
  if f.generics.isEmpty then ""
  else "<" ++ ", ".intercalate (f.generics.map (·.declaration)) ++ ">"

/-- The declaration of a function. -/
def declaration (f : Signature) : String :=
  "export declare function " ++ f.name ++ f.genericClause ++
    "(" ++ ", ".intercalate (f.parameters.map (·.declaration)) ++ "): " ++
    f.returnType.canonical ++ ";"

end Signature

/-! ### What can be written -/

/-- A type parameter whose name is an identifier that the reader takes for
nothing else. -/
structure GenericParameter.WellFormed (generics : List String) (g : GenericParameter) : Prop where
  name : isName g.name.toList = true
  notConst : g.name ≠ "const"
  notKeyword : Primitive.ofKeyword? g.name = none
  constraint : ∀ t, g.constraint = some t → Writable generics t

/-- A parameter that is no receiver. -/
structure Parameter.WellFormed (generics : List String) (p : Parameter) : Prop where
  name : isName p.name.toList = true
  notThis : p.name ≠ "this"
  type : Writable generics p.type

structure Signature.WellFormed (f : Signature) : Prop where
  name : isName f.name.toList = true
  generics : ∀ g ∈ f.generics, g.WellFormed f.genericNames
  parameters : ∀ p ∈ f.parameters, p.WellFormed f.genericNames
  returnType : Writable f.genericNames f.returnType

/-- The characters of declarations. No semicolon, brace, quote or slash is
among them. -/
def isDeclarationChar (c : Char) : Bool :=
  isTypeChar c || [',', ':', '?'].contains c

/-- A text that stands in a list of type parameters or parameters. -/
structure Entry (text : List Char) : Prop extends Joinable ',' text where
  chars : ∀ c ∈ text, isDeclarationChar c = true

variable {generics : List String} {name middle text : List Char} {t : TypeExpr}
  {pieces : List (List Char)}

theorem isDeclarationChar_of_isTypeChar {c : Char} (h : isTypeChar c = true) :
    isDeclarationChar c = true := by
  rw [isDeclarationChar, h, Bool.true_or]

theorem isDeclarationChar_of_isName (h : isName name = true) :
    ∀ c ∈ name, isDeclarationChar c = true :=
  fun _ hc => isDeclarationChar_of_isTypeChar (isTypeChar_of_isNameChar (isNameChar_of_isName h hc))

/-- A name is an entry. -/
theorem Entry.of_isName (h : isName name = true) : Entry name where
  whole := .of_not_mem (.of_plain (isPlain_of_isName h)) (not_mem_of_isName h (by decide))
  trimmed := trimmed_of_isName h
  ne_nil := ne_nil_of_isName h
  noArrow := not_mem_of_isName h (by decide)
  chars := isDeclarationChar_of_isName h

/-- A name and a type with a few words or marks between them are an
entry. -/
theorem Entry.of_typed (hName : isName name = true) (hMiddle : ∀ c ∈ middle, isPlain c = true)
    (hChars : ∀ c ∈ middle, isDeclarationChar c = true) (hComma : ',' ∉ middle)
    (h : Typed generics text t) : Entry (name ++ (middle ++ text)) := by
  have hBalanced : Balanced (name ++ (middle ++ text)) :=
    (Balanced.plain_append_iff (isPlain_of_isName hName)).mpr
      ((Balanced.plain_append_iff hMiddle).mpr h.balanced)
  have hArrow : '=' ∉ middle := fun hMem => absurd (hMiddle '=' hMem) (by decide)
  refine ⟨⟨.of_not_mem hBalanced ?_, ?_, ?_, ?_⟩, ?_⟩
  · simp only [List.mem_append, not_or]
    exact ⟨not_mem_of_isName hName (by decide), hComma, not_mem_of_chars h.chars (by decide)⟩
  · exact (trimmed_of_isName hName).append_middle h.trimmed (ne_nil_of_isName hName) h.ne_nil
  · exact List.append_ne_nil_of_left_ne_nil (ne_nil_of_isName hName) _
  · simp only [List.mem_append, not_or]
    exact ⟨not_mem_of_isName hName (by decide), hArrow, not_mem_of_chars h.chars (by decide)⟩
  · simp only [List.forall_mem_append]
    exact ⟨isDeclarationChar_of_isName hName, hChars,
      fun c hc => isDeclarationChar_of_isTypeChar (h.chars c hc)⟩

/-- The characters of entries with commas between them. -/
theorem chars_joined (h : ∀ piece ∈ pieces, Entry piece) :
    ∀ c ∈ ", ".toList.intercalate pieces, isDeclarationChar c = true := by
  intro c hc
  rcases mem_intercalate hc with hJoint | ⟨piece, hPiece, hMem⟩
  · exact List.all_eq_true.mp (show ", ".toList.all isDeclarationChar = true from rfl) c hJoint
  · exact (h piece hPiece).chars c hMem

/-- Entries joined by commas are cut into the same entries again, since none
of them has a comma outside of its brackets. -/
theorem Signature.entries_joined (h : ∀ piece ∈ pieces, Entry piece) :
    entries (", ".toList.intercalate pieces) = .ok pieces := by
  have hJoint : Spaced ',' ", ".toList := ⟨[], [' '], rfl, by simp, List.all_eq_true.mp rfl⟩
  obtain ⟨cut, hCut, hKept⟩ :=
    exists_splitTop_intercalate rfl rfl hJoint fun piece hPiece => (h piece hPiece).toJoinable
  rw [entries, hCut]
  exact congrArg Except.ok hKept

/-- Blanks before a type do not matter. The declaration has one behind each
colon. -/
theorem readType_typed {front : List Char} (h : Typed generics text t)
    (hFront : ∀ c ∈ front, isBlank c = true) :
    Signature.readType generics (front ++ text) = .ok t := by
  have hTrim : trim (front ++ text) = text := by
    have hBetween : trim (front ++ (text ++ [])) = text :=
      h.trimmed.trim_between h.ne_nil hFront (by simp)
    rwa [List.append_nil] at hBetween
  have hParse : parse generics (front ++ text) = parse generics text := by
    rw [parse_eq, parse_eq generics text, hTrim, h.trimmed.trim_eq]
  rw [Signature.readType, hParse, h.reads]
  rfl

/-! ### Type parameters -/

section Generics

variable {g : GenericParameter}

/-- What stands behind the name of a type parameter. -/
def GenericParameter.clause (g : GenericParameter) : List Char :=
  match g.constraint with
  | none => []
  | some constraint => " extends ".toList ++ constraint.canonical.toList

/-- The declaration of a type parameter is its name and the clause behind
it. -/
theorem GenericParameter.toList_declaration (g : GenericParameter) :
    g.declaration.toList = g.name.toList ++ g.clause := by
  unfold declaration clause
  cases g.constraint <;> simp

/-- The clause begins with a character that is in no name, so that the name
ends where it should. -/
theorem GenericParameter.head_clause (g : GenericParameter) {c : Char}
    (h : g.clause.head? = some c) : isNameChar c = false := by
  unfold clause at h
  cases hConstraint : g.constraint with
  | none =>
      rw [hConstraint] at h
      cases h
  | some constraint =>
      rw [hConstraint] at h
      cases h
      rfl

namespace GenericParameter.WellFormed

theorem typed (h : g.WellFormed generics) (hScope : Scope generics)
    (hConstraint : g.constraint = some t) : Typed generics t.canonical.toList t :=
  ((h.constraint t hConstraint).readsBack hScope).typed

/-- The text of a type parameter may stand in the list, whatever its
constraint. -/
theorem entry (h : g.WellFormed generics) (hScope : Scope generics) :
    Entry g.declaration.toList := by
  rw [g.toList_declaration, GenericParameter.clause]
  cases hConstraint : g.constraint with
  | none =>
      rw [List.append_nil]
      exact .of_isName h.name
  | some constraint =>
      exact .of_typed h.name (List.all_eq_true.mp rfl) (List.all_eq_true.mp rfl) (by decide)
        (h.typed hScope hConstraint)

end GenericParameter.WellFormed

namespace Signature

/-- An entry without modifier and default is left as it is. -/
theorem genericEntry_eq {entry : List Char} (h : Entry entry)
    (hConst : afterWord? "const" entry = none) : genericEntry entry = .ok entry := by
  have hNone : breakTop (fun c rest => c == '=' && rest.head? != some '>') entry = .ok none := by
    apply breakTop_eq_none_of_not_mem h.whole.balanced _ h.noArrow
    intro d behind hAccept
    exact beq_iff_eq.mp (Bool.and_eq_true_iff.mp hAccept).1
  unfold genericEntry
  rw [hConst]
  dsimp only [Option.getD_none]
  rw [hNone]
  rfl

/-- The name and the text of the constraint are found in the declaration of
a type parameter. -/
theorem constrainedName_declaration (h : g.WellFormed generics) (hScope : Scope generics) :
    constrainedName g.declaration.toList =
      .ok (g.name, g.constraint.map (·.canonical.toList)) := by
  obtain ⟨hTake, hDrop⟩ := takeWhile_name h.name fun _ => g.head_clause
  unfold constrainedName afterName
  rw [g.toList_declaration, hTake, hDrop, if_pos h.name, String.ofList_toList]
  unfold GenericParameter.clause
  cases hConstraint : g.constraint with
  | none => rfl
  | some constraint =>
      have hAfter : afterWord? "extends" ("extends ".toList ++ constraint.canonical.toList) =
          some constraint.canonical.toList :=
        afterWord?_eq_some_iff.mpr ⟨' ', _, rfl, rfl,
          (trimStart_eq_self (h.typed hScope hConstraint).trimmed.head).symm⟩
      have hTrim : trimStart (" extends ".toList ++ constraint.canonical.toList) =
          "extends ".toList ++ constraint.canonical.toList := rfl
      dsimp only
      rw [hTrim, hAfter, if_neg (by simp)]
      rfl

/-- The name of a type parameter and the text of its constraint are found
again. -/
theorem genericParts_declaration (h : g.WellFormed generics) (hScope : Scope generics) :
    genericParts g.declaration.toList = .ok (g.name, g.constraint.map (·.canonical.toList)) := by
  have hConst : afterWord? "const" g.declaration.toList = none := by
    rw [g.toList_declaration]
    refine afterWord?_eq_none_of_name h.name rfl ?_ fun _ => g.head_clause
    exact fun hSame => h.notConst (String.toList_inj.mp hSame)
  rw [genericParts_eq, genericEntry_eq (h.entry hScope) hConst, ok_bind]
  exact constrainedName_declaration h hScope

/-- A type parameter is read back from what was found in its declaration. -/
theorem readGeneric_declaration (h : g.WellFormed generics) (hScope : Scope generics) :
    readGeneric generics (g.name, g.constraint.map (·.canonical.toList)) = .ok g := by
  obtain ⟨name, constraint⟩ := g
  cases constraint with
  | none => rfl
  | some constraint =>
      have hRead : readType generics ([] ++ constraint.canonical.toList) = .ok constraint :=
        readType_typed (h.typed hScope rfl) (by simp)
      rw [List.nil_append] at hRead
      dsimp only [Option.map_some, readGeneric]
      rw [hRead]
      rfl

end Signature

end Generics

/-! ### Parameters -/

section Parameters

variable {p : Parameter}

/-- What stands between the name of a parameter and the colon. -/
def Parameter.mark (p : Parameter) : List Char :=
  if p.optional then ['?'] else []

/-- The declaration of a parameter is its name, the mark of an optional one,
and its type. -/
theorem Parameter.toList_declaration (p : Parameter) :
    p.declaration.toList = p.name.toList ++ (p.mark ++ ": ".toList ++ p.type.canonical.toList) := by
  unfold declaration mark
  cases p.optional <;> simp

theorem Parameter.WellFormed.typed (h : p.WellFormed generics) (hScope : Scope generics) :
    Typed generics p.type.canonical.toList p.type :=
  (h.type.readsBack hScope).typed

/-- The text of a parameter may stand in the list of parameters, whatever
its type. -/
theorem Parameter.WellFormed.entry (h : p.WellFormed generics) (hScope : Scope generics) :
    Entry p.declaration.toList := by
  have hTyped := h.typed hScope
  rw [p.toList_declaration, Parameter.mark]
  cases p.optional with
  | false =>
      exact .of_typed h.name (List.all_eq_true.mp rfl) (List.all_eq_true.mp rfl) (by decide) hTyped
  | true =>
      exact .of_typed h.name (List.all_eq_true.mp rfl) (List.all_eq_true.mp rfl) (by decide) hTyped

namespace Signature

/-- The mark of an optional parameter is told from its name, since no name
ends in one. -/
theorem optionalName_mark (h : isName p.name.toList = true) :
    optionalName (p.name.toList ++ p.mark) = (p.name.toList, p.optional) := by
  unfold optionalName Parameter.mark
  cases p.optional with
  | false =>
      cases hBefore : before? ['?'] p.name.toList with
      | none => simp [hBefore]
      | some name =>
          have hMark : '?' ∈ p.name.toList := by
            rw [before?_eq_some_iff.mp hBefore]
            simp
          exact absurd hMark (not_mem_of_isName h (by decide))
  | true =>
      have hBefore : before? ['?'] (p.name.toList ++ ['?']) = some p.name.toList :=
        before?_eq_some_iff.mpr rfl
      rw [if_pos rfl, hBefore]
      dsimp only
      rw [trimEnd_eq_self (trimmed_of_isName h).last]

/-- The text of a parameter is cut at its colon. -/
theorem parameterParts_declaration (h : isName p.name.toList = true) :
    parameterParts p.declaration.toList =
      .ok (p.name.toList ++ p.mark, some (' ' :: p.type.canonical.toList)) := by
  have hPlain : ∀ c ∈ p.name.toList ++ p.mark, isPlain c = true := by
    rw [List.forall_mem_append, Parameter.mark]
    refine ⟨isPlain_of_isName h, ?_⟩
    cases p.optional <;> exact List.all_eq_true.mp rfl
  have hColon : ':' ∉ p.name.toList ++ p.mark := by
    rw [List.mem_append, not_or, Parameter.mark]
    refine ⟨not_mem_of_isName h (by decide), ?_⟩
    cases p.optional <;> decide
  have hTrimmed : Trimmed (p.name.toList ++ p.mark) := by
    unfold Parameter.mark
    cases p.optional with
    | false => simpa using trimmed_of_isName h
    | true =>
        exact (trimmed_of_isName h).append (trimmed_singleton rfl) (ne_nil_of_isName h) (by simp)
  have hBreak : breakTop (fun c _ => c == ':')
      ((p.name.toList ++ p.mark) ++ ':' :: ' ' :: p.type.canonical.toList) =
        .ok (some (p.name.toList ++ p.mark, ' ' :: p.type.canonical.toList)) := by
    refine breakTop_eq_some (.of_plain hPlain) (fun d hd _ => ?_) rfl rfl
    exact beq_eq_false_iff_ne.mpr fun hSame => hColon (hSame ▸ hd)
  have hDots : after? ['.', '.', '.']
      ((p.name.toList ++ p.mark) ++ ':' :: ' ' :: p.type.canonical.toList) = none := by
    rw [List.append_assoc]
    exact after?_eq_none_of_name h rfl
  have hText : p.declaration.toList =
      (p.name.toList ++ p.mark) ++ ':' :: ' ' :: p.type.canonical.toList := by
    rw [p.toList_declaration]
    simp
  unfold parameterParts
  rw [hText, hDots]
  dsimp only [Option.getD_none]
  rw [hBreak]
  exact congrArg (fun declared => Except.ok (declared, _)) hTrimmed.trim_eq

theorem readParameter_declaration (h : p.WellFormed generics) (hScope : Scope generics) :
    readParameter generics p.declaration.toList = .ok (some p) := by
  have hRead : readType generics ([' '] ++ p.type.canonical.toList) = .ok p.type :=
    readType_typed (h.typed hScope) (List.all_eq_true.mp rfl)
  have hThis : (p.name.toList == "this".toList) = false :=
    beq_eq_false_iff_ne.mpr fun hSame => h.notThis (String.toList_inj.mp hSame)
  rw [readParameter_eq, parameterParts_declaration h.name, ok_bind]
  dsimp only
  rw [optionalName_mark h.name, namedParameter, if_pos h.name, hThis, if_neg Bool.false_ne_true,
    parameterType]
  rw [show ' ' :: p.type.canonical.toList = [' '] ++ p.type.canonical.toList from rfl, hRead,
    String.ofList_toList]
  rfl

end Signature

end Parameters

/-! ### Signatures -/

namespace Signature

variable {f : Signature} {rest : List Char}

/-- The texts of the parameters with commas between them. -/
def writtenParameters (f : Signature) : List Char :=
  ", ".toList.intercalate (f.parameters.map (·.declaration.toList))

/-- The texts of the type parameters with commas between them. -/
def writtenGenerics (f : Signature) : List Char :=
  ", ".toList.intercalate (f.generics.map (·.declaration.toList))

/-- The result type behind the parameters. -/
def writtenResult (f : Signature) : List Char :=
  ':' :: ' ' :: f.returnType.canonical.toList

/-- What a declaration says behind its keywords, without its semicolon. -/
def written (f : Signature) : List Char :=
  f.name.toList ++
    (f.genericClause.toList ++ '(' :: (f.writtenParameters ++ ')' :: f.writtenResult))

/-- The clause of type parameters is their joined texts in angle brackets,
or nothing at all. -/
theorem toList_genericClause (f : Signature) :
    f.genericClause.toList =
      if f.generics.isEmpty then [] else '<' :: (f.writtenGenerics ++ ['>']) := by
  unfold genericClause writtenGenerics
  cases f.generics.isEmpty <;> simp [String.toList_intercalate, Function.comp_def]

/-- Neither a clause nor a parameter list begins with a character of a
name. -/
theorem head_behind_name {c : Char} (h : (f.genericClause.toList ++ '(' :: rest).head? = some c) :
    isNameChar c = false ∧ isBlank c = false := by
  rw [toList_genericClause] at h
  cases hEmpty : f.generics.isEmpty with
  | true =>
      rw [hEmpty] at h
      cases h
      exact ⟨rfl, rfl⟩
  | false =>
      rw [hEmpty] at h
      cases h
      exact ⟨rfl, rfl⟩

namespace WellFormed

/-- The names of the type parameters can be in scope of types, since they
are no keywords. -/
theorem scope (h : f.WellFormed) : Scope f.genericNames := by
  intro name hName
  obtain ⟨g, hg, rfl⟩ := List.mem_map.mp hName
  exact ⟨(h.generics g hg).name, (h.generics g hg).notKeyword⟩

/-- The return type is written as a text that is read back as it. -/
theorem typed_result (h : f.WellFormed) :
    Typed f.genericNames f.returnType.canonical.toList f.returnType :=
  (h.returnType.readsBack h.scope).typed

/-- The texts of the type parameters may all stand in one list, as none has
a comma outside of its brackets. -/
theorem entry_generic (h : f.WellFormed) :
    ∀ piece ∈ f.generics.map (·.declaration.toList), Entry piece := by
  intro piece hPiece
  obtain ⟨g, hg, rfl⟩ := List.mem_map.mp hPiece
  exact (h.generics g hg).entry h.scope

/-- The same for the texts of the parameters, including those of optional
ones. -/
theorem entry_parameter (h : f.WellFormed) :
    ∀ piece ∈ f.parameters.map (·.declaration.toList), Entry piece := by
  intro piece hPiece
  obtain ⟨p, hp, rfl⟩ := List.mem_map.mp hPiece
  exact (h.parameters p hp).entry h.scope

/-- The type parameters of a clause are read in order. -/
theorem readGenerics_eq (h : f.WellFormed) : readGenerics f.writtenGenerics = .ok f.generics := by
  have hParts : (f.generics.map (·.declaration.toList)).mapM genericParts =
      .ok (f.generics.map fun g => (g.name, g.constraint.map (·.canonical.toList))) := by
    rw [mapM_ok_iff, List.forall₂_map_left_iff, List.forall₂_map_right_iff, List.forall₂_same]
    exact fun g hg => genericParts_declaration (h.generics g hg) h.scope
  have hRead : (f.generics.map fun g => (g.name, g.constraint.map (·.canonical.toList))).mapM
      (readGeneric f.genericNames) = .ok f.generics := by
    rw [mapM_ok_iff, List.forall₂_map_left_iff, List.forall₂_same]
    exact fun g hg => readGeneric_declaration (h.generics g hg) h.scope
  unfold readGenerics writtenGenerics
  rw [entries_joined h.entry_generic, ok_bind, hParts, ok_bind, List.map_map]
  exact hRead

/-- The parameters are read back from their joined texts, one by one. -/
theorem readParameters_eq (h : f.WellFormed) :
    readParameters f.genericNames f.writtenParameters = .ok f.parameters := by
  have hRead : (f.parameters.map (·.declaration.toList)).mapM (readParameter f.genericNames) =
      .ok (f.parameters.map some) := by
    rw [mapM_ok_iff, List.forall₂_map_left_iff, List.forall₂_map_right_iff, List.forall₂_same]
    exact fun p hp => readParameter_declaration (h.parameters p hp) h.scope
  unfold readParameters writtenParameters
  rw [entries_joined h.entry_parameter, ok_bind, hRead]
  simp

/-- Joined texts of type parameters are balanced, and so they can stand
between brackets. -/
theorem balanced_generics (h : f.WellFormed) : Balanced f.writtenGenerics :=
  .intercalate (List.all_eq_true.mp rfl) (by decide) fun piece hPiece =>
    (h.entry_generic piece hPiece).whole.balanced

theorem balanced_parameters (h : f.WellFormed) : Balanced f.writtenParameters :=
  .intercalate (List.all_eq_true.mp rfl) (by decide) fun piece hPiece =>
    (h.entry_parameter piece hPiece).whole.balanced

/-- The text in the brackets does not end in an equals sign. With the
closing angle it would make an arrow. -/
theorem last_generics (h : f.WellFormed) : f.writtenGenerics.getLast? ≠ some '=' := by
  intro hLast
  have hChar := chars_joined h.entry_generic '=' (List.mem_of_getLast? hLast)
  cases hChar

/-- The clause of type parameters is read back up to the opening bracket of
the parameters. -/
theorem readGenericClause_eq (h : f.WellFormed) :
    readGenericClause (f.genericClause.toList ++ '(' :: rest) = .ok (f.generics, '(' :: rest) := by
  rw [toList_genericClause]
  cases hGenerics : f.generics.isEmpty with
  | true =>
      rw [List.isEmpty_iff.mp hGenerics]
      rfl
  | false =>
      have hGroup : group? ('<' :: (f.writtenGenerics ++ '>' :: '(' :: rest)) =
          .ok (some (f.writtenGenerics, '(' :: rest)) :=
        group?_eq_some h.balanced_generics (show opening? '<' = some .angle from rfl) rfl
          fun _ => h.last_generics
      rw [if_neg Bool.false_ne_true, List.cons_append, List.append_assoc, readGenericClause]
      rw [if_pos (by rfl), show [('>' : Char)] ++ '(' :: rest = '>' :: '(' :: rest from rfl, hGroup]
      change (readGenerics f.writtenGenerics >>= _) = _
      rw [h.readGenerics_eq]
      rfl

/-- The return type is read back from the end of the declaration. -/
theorem readReturnType_eq (h : f.WellFormed) :
    readReturnType f.genericNames f.writtenResult = .ok f.returnType := by
  have hTyped := h.typed_result
  have hTrimmed : Trimmed ([':'] ++ ([' '] ++ f.returnType.canonical.toList)) :=
    (trimmed_singleton rfl).append_middle hTyped.trimmed (by simp) hTyped.ne_nil
  have hRead : readType f.genericNames ([' '] ++ f.returnType.canonical.toList) =
      .ok f.returnType := readType_typed hTyped (List.all_eq_true.mp rfl)
  have hTrim : trim f.writtenResult = f.writtenResult := hTrimmed.trim_eq
  rw [readReturnType, hTrim]
  exact hRead

/-- What is written is read. -/
theorem parse_written (h : f.WellFormed) : parse f.written = .ok { f with doc := none } := by
  obtain ⟨hTake, hDrop⟩ : f.written.takeWhile isNameChar = f.name.toList ∧
      f.written.dropWhile isNameChar =
        f.genericClause.toList ++ '(' :: (f.writtenParameters ++ ')' :: f.writtenResult) :=
    takeWhile_name h.name fun c hc => (head_behind_name hc).1
  have hAfter : afterName f.written =
      f.genericClause.toList ++ '(' :: (f.writtenParameters ++ ')' :: f.writtenResult) := by
    rw [afterName, hDrop]
    exact trimStart_eq_self fun c hc => (head_behind_name hc).2
  have hGroup : group? ('(' :: (f.writtenParameters ++ ')' :: f.writtenResult)) =
      .ok (some (f.writtenParameters, f.writtenResult)) :=
    group?_eq_some h.balanced_parameters (show opening? '(' = some .round from rfl) rfl (by simp)
  have hLists : readLists f.name.toList f.generics f.writtenParameters f.writtenResult =
      .ok { f with doc := none } := by
    unfold readLists
    rw [show f.generics.map (·.name) = f.genericNames from rfl, h.readParameters_eq, ok_bind,
      h.readReturnType_eq, ok_bind, String.ofList_toList]
    rfl
  rw [parse_eq, hTake, hAfter, if_pos h.name, h.readGenericClause_eq, ok_bind]
  dsimp only
  rw [if_pos (by rfl), hGroup]
  exact hLists

/-- What a declaration says behind its keywords is balanced as a whole. -/
theorem balanced_written (h : f.WellFormed) : Balanced f.written := by
  have hClause : Balanced f.genericClause.toList ∧ f.genericClause.toList.getLast? ≠ some '=' := by
    rw [toList_genericClause]
    cases f.generics.isEmpty with
    | true => exact ⟨.nil, by simp⟩
    | false =>
        refine ⟨.group h.balanced_generics (show opening? '<' = some .angle from rfl) rfl
          fun _ => h.last_generics, ?_⟩
        rw [if_neg Bool.false_ne_true, ← List.cons_append, List.getLast?_concat]
        decide
  have hResult : Balanced f.writtenResult :=
    (Balanced.plain_append_iff (show ∀ c ∈ [':', ' '], isPlain c = true from
      List.all_eq_true.mp rfl)).mpr
      h.typed_result.balanced
  have hParameters : Balanced ('(' :: (f.writtenParameters ++ [')'])) :=
    .group h.balanced_parameters (show opening? '(' = some .round from rfl) rfl (by simp)
  have hLists : Balanced (('(' :: (f.writtenParameters ++ [')'])) ++ f.writtenResult) := by
    refine hParameters.append hResult ?_
    rw [← List.cons_append, List.getLast?_concat]
    decide
  have hText : ('(' :: (f.writtenParameters ++ [')'])) ++ f.writtenResult =
      '(' :: (f.writtenParameters ++ ')' :: f.writtenResult) := by simp
  rw [hText] at hLists
  exact (Balanced.plain_append_iff (isPlain_of_isName h.name)).mpr
    (hClause.1.append hLists hClause.2)

/-- It is made of the characters of declarations only, so that no comment
and no literal can begin in it. -/
theorem chars_written (h : f.WellFormed) : ∀ c ∈ f.written, isDeclarationChar c = true := by
  have hClause : ∀ c ∈ f.genericClause.toList, isDeclarationChar c = true := by
    rw [toList_genericClause]
    cases f.generics.isEmpty with
    | true => simp
    | false =>
        rw [if_neg Bool.false_ne_true, List.forall_mem_cons, List.forall_mem_append]
        exact ⟨rfl, chars_joined h.entry_generic, List.all_eq_true.mp rfl⟩
  have hResult : ∀ c ∈ f.writtenResult, isDeclarationChar c = true := by
    unfold writtenResult
    rw [List.forall_mem_cons, List.forall_mem_cons]
    exact ⟨rfl, rfl, fun c hc => isDeclarationChar_of_isTypeChar (h.typed_result.chars c hc)⟩
  unfold written
  rw [List.forall_mem_append, List.forall_mem_append, List.forall_mem_cons,
    List.forall_mem_append, List.forall_mem_cons]
  exact ⟨isDeclarationChar_of_isName h.name, hClause, rfl, chars_joined h.entry_parameter, rfl,
    hResult⟩

theorem trimmed_written (h : f.WellFormed) : Trimmed f.written ∧ f.written ≠ [] := by
  have hText : f.written = f.name.toList ++ ((f.genericClause.toList ++
      '(' :: (f.writtenParameters ++ [')', ':', ' '])) ++ f.returnType.canonical.toList) := by
    simp [written, writtenResult]
  rw [hText]
  exact ⟨(trimmed_of_isName h.name).append_middle h.typed_result.trimmed (ne_nil_of_isName h.name)
    h.typed_result.ne_nil, List.append_ne_nil_of_left_ne_nil (ne_nil_of_isName h.name) _⟩

end WellFormed

/-- The statement that a declaration is, without its semicolon. -/
def statement (f : Signature) : List Char :=
  "export declare function ".toList ++ f.written

theorem toList_declaration (f : Signature) : f.declaration.toList = f.statement ++ [';'] := by
  have hOpen : "(".toList = ['('] := rfl
  have hClose : "): ".toList = [')', ':', ' '] := rfl
  have hEnd : ";".toList = [';'] := rfl
  unfold declaration statement written writtenParameters writtenResult
  simp only [String.toList_append, String.toList_intercalate, List.map_map, Function.comp_def,
    List.append_assoc, List.cons_append, List.nil_append, hOpen, hClose, hEnd]

example :
    declaration
      { name := "find"
        generics := [⟨"K", some (.keyOf (.reference "Table"))⟩, ⟨"V", none⟩]
        parameters := [⟨"key", .genericRef "K", false⟩]
        returnType := .promiseOf (.arrayOf (.unionOf [.genericRef "V", .primitive .null]))
        doc := none } =
      "export declare function find<K extends keyof Table, V>(key: K): Promise<(V | null)[]>;" := by
  decide

namespace WellFormed

/-- The keywords are plain, so that the whole statement is balanced. -/
theorem balanced_statement (h : f.WellFormed) : Balanced f.statement :=
  (Balanced.plain_append_iff (List.all_eq_true.mp rfl)).mpr h.balanced_written

/-- No semicolon, brace, quote or slash stands in the statement, so that it
is one. -/
theorem chars_statement (h : f.WellFormed) : ∀ c ∈ f.statement, isDeclarationChar c = true := by
  have hKeywords : ∀ c ∈ "export declare function ".toList, isDeclarationChar c = true :=
    List.all_eq_true.mp rfl
  exact List.forall_mem_append.mpr ⟨hKeywords, h.chars_written⟩

/-- And it has no blanks at its ends, which the reader would take off. -/
theorem trimmed_statement (h : f.WellFormed) : Trimmed f.statement := by
  obtain ⟨hTrimmed, hNil⟩ := h.trimmed_written
  have hWords : Trimmed ("export".toList ++ (" declare function ".toList ++ f.written)) :=
    (trimmed_of_isName rfl).append_middle hTrimmed (by decide) hNil
  exact hWords

/-- The keywords before the name are taken off. -/
theorem afterKeywords?_statement (h : f.WellFormed) :
    afterKeywords? f.statement = some f.written := by
  have hFunction : afterWord? "function" ("function ".toList ++ f.written) = some f.written :=
    afterWord?_eq_some_iff.mpr
      ⟨' ', f.written, rfl, rfl, (trimStart_eq_self h.trimmed_written.1.head).symm⟩
  have hExport : afterWord? "export" f.statement =
      some ("declare function ".toList ++ f.written) := rfl
  have hDeclare : afterWord? "declare" ("declare function ".toList ++ f.written) =
      some ("function ".toList ++ f.written) := rfl
  unfold afterKeywords?
  rw [hExport]
  simp only [Option.bind_eq_bind, Option.bind_some, hDeclare, Option.getD_some]
  exact hFunction

end WellFormed

end Signature

end ScriptBindings
