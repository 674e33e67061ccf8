import ScriptBindings.Declaration.Reader
import ScriptBindings.Proofs.Outcomes

/-! How signatures and modules are read, one equation for each reader that
refuses some texts. -/
namespace ScriptBindings

open Text ScriptBindings.Bracket Outcomes

namespace Signature

/-- What follows the name of a function. -/
def afterName (text : List Char) : List Char :=
  trimStart (text.dropWhile isNameChar)

/-- The name and the constraint of an entry without modifier and default. -/
def constrainedName (entry : List Char) : Except Fault (String × Option (List Char)) :=
  if isName (entry.takeWhile isNameChar) then
    if (afterName entry).isEmpty then .ok (String.ofList (entry.takeWhile isNameChar), none)
    else
      match afterWord? "extends" (afterName entry) with
      | some constraint => .ok (String.ofList (entry.takeWhile isNameChar), some constraint)
      | none => .error (.invalidGeneric (String.ofList entry))
  else .error (.invalidGeneric (String.ofList entry))

/-- Reading an entry of the type parameters is two steps one after the
other, which later proofs take one by one. -/
theorem genericParts_eq (entry : List Char) :
    genericParts entry = genericEntry entry >>= constrainedName := by
  unfold genericParts
  congr 1
  funext left
  unfold constrainedName afterName
  dsimp only
  cases isName (left.takeWhile isNameChar) <;> rfl

/-- The name of a parameter and whether it may be left out. -/
def optionalName (declared : List Char) : List Char × Bool :=
  match before? ['?'] declared with
  | some name => (trimEnd name, true)
  | none => (declared, false)

/-- The type of a parameter, which is `any` when none is given. -/
def parameterType (generics : List String) : Option (List Char) → Except Fault TypeExpr
  | some text => readType generics text
  | none => .ok (.primitive .any)

/-- The parameter of that name, unless it only types the receiver. -/
def namedParameter (generics : List String) (declared : List Char) (type : Option (List Char))
    (name : List Char) (optional : Bool) : Except Fault (Option Parameter) :=
  if isName name then
    if name == "this".toList then .ok none
    else (parameterType generics type).map fun type => some ⟨String.ofList name, type, optional⟩
  else .error (.invalidParameter (String.ofList declared))

/-- An entry of the parameters is cut at its colon first, and what stands
before the colon is read as a name afterwards. -/
theorem readParameter_eq (generics : List String) (entry : List Char) :
    readParameter generics entry = parameterParts entry >>= fun (declared, type) =>
      namedParameter generics declared type (optionalName declared).1
        (optionalName declared).2 := by
  unfold readParameter
  congr 1
  funext ⟨declared, type⟩
  have hNamed (name : List Char) (optional : Bool) :
      (do
        if !isName name then throw (.invalidParameter (String.ofList declared))
        if name == "this".toList then return none
        match type with
        | some text => return some ⟨String.ofList name, ← readType generics text, optional⟩
        | none => return some ⟨String.ofList name, .primitive .any, optional⟩) =
      namedParameter generics declared type name optional := by
    unfold namedParameter
    cases isName name with
    | false => rfl
    | true =>
        cases name == "this".toList with
        | true => rfl
        | false =>
            cases type with
            | none => rfl
            | some text =>
                simp only [parameterType]
                cases readType generics text <;> rfl
  unfold optionalName
  dsimp only
  cases before? ['?'] declared with
  | none => exact hNamed declared false
  | some name => exact hNamed (trimEnd name) true

/-- What is read of a signature between its parentheses and behind them. -/
def readLists (name : List Char) (generics : List GenericParameter) (inside tail : List Char) :
    Except Fault Signature := do
  let parameters ← readParameters (generics.map (·.name)) inside
  let returnType ← readReturnType (generics.map (·.name)) tail
  return { name := String.ofList name, generics, parameters, returnType, doc := none }

/-- The stages of reading a signature in their order: the name, the type
parameters, the parameters and the result. Each stage begins where the one
before ended. -/
theorem parse_eq (text : List Char) :
    parse text =
      if isName (text.takeWhile isNameChar) then
        readGenericClause (afterName text) >>= fun (generics, rest) =>
          if rest.head? = some '(' then
            within (group? rest) >>= fun
              | some (inside, tail) => readLists (text.takeWhile isNameChar) generics inside tail
              | none => .error .unclosedParameters
          else .error (.missingParameters (String.ofList (text.takeWhile isNameChar)))
      else .error .missingName := by
  unfold parse
  dsimp only
  cases isName (text.takeWhile isNameChar) with
  | false => rfl
  | true =>
      change (readGenericClause (afterName text) >>= _) = _
      cases readGenericClause (afterName text) with
      | error fault => rfl
      | ok clause =>
          obtain ⟨generics, rest⟩ := clause
          simp only [ok_bind]
          by_cases hRound : rest.head? = some '('
          · rw [if_pos hRound, if_neg (by simp [hRound])]
            congr 1
            funext found
            cases found <;> rfl
          · rw [if_neg hRound, if_pos (by simpa using hRound)]
            rfl

end Signature

open Declaration

/-- The functions that are kept are found in statements. -/
theorem exists_finding_of_mem_readStatements {path : String} {source : List Char}
    {taken : List String} {found : List Statement} {f : Signature}
    (h : f ∈ (readStatements path source taken found).1) :
    ∃ statement ∈ found, Finding.ofStatement statement = .function f := by
  induction found generalizing taken with
  | nil => cases h
  | cons statement rest ih =>
      have hLater {names : List String} (hRest : f ∈ (readStatements path source names rest).1) :
          ∃ other ∈ statement :: rest, Finding.ofStatement other = .function f := by
        obtain ⟨other, hMem, hFinding⟩ := ih hRest
        exact ⟨other, List.mem_cons_of_mem _ hMem, hFinding⟩
      unfold readStatements at h
      split at h
      · exact hLater h
      · exact hLater h
      · next read hFinding =>
          split at h
          · exact hLater h
          · rcases List.mem_cons.mp h with rfl | hRest
            · exact ⟨statement, List.mem_cons_self, hFinding⟩
            · exact hLater hRest

/-- A source whose statements can be told apart always gives a module, with
the complaints about single statements beside it. -/
theorem readModule_of_statements (path : String) {source : String} {found : List Statement}
    (h : statements source.toList = .ok found) :
    readModule path source =
      ⟨some (.ofPath path (readStatements path source.toList [] found).1),
        (readStatements path source.toList [] found).2⟩ := by
  simp only [readModule, h]

/-- A module is read from the statements of its source, which were found
before any of them was looked at. -/
theorem exists_statements_of_readModule {path source : String} {m : ScriptModule}
    (h : (readModule path source).module? = some m) :
    ∃ found, statements source.toList = .ok found ∧
      m = .ofPath path (readStatements path source.toList [] found).1 := by
  cases hFound : statements source.toList with
  | error fault =>
      unfold readModule at h
      dsimp only at h
      rw [hFound] at h
      cases h
  | ok found =>
      rw [readModule_of_statements path hFound] at h
      exact ⟨found, rfl, (Option.some.inj h).symm⟩

end ScriptBindings
