import ScriptBindings.Proofs.Declaration.Reading
import ScriptBindings.Proofs.TypeExpr.Scoped

/-! What the signatures are like that reading gives. All names are names of
declaration modules, and all types are in normal form, with the type
parameters of their signature in scope. -/
namespace ScriptBindings

open Text Outcomes ScriptBindings.Bracket TypeExpr

namespace Signature

/-- The signatures that refer to their own type parameters only. -/
structure Parsed (f : Signature) : Prop where
  name : isName f.name.toList = true
  generics : ∀ g ∈ f.generics, isName g.name.toList = true
  parameters : ∀ p ∈ f.parameters, isName p.name.toList = true ∧ Scoped f.genericNames p.type
  returnType : Scoped f.genericNames f.returnType

/-- The signatures with names of declaration modules and types in normal
form. -/
structure Normal (f : Signature) : Prop where
  name : isName f.name.toList = true
  generics : ∀ g ∈ f.generics, isName g.name.toList = true ∧
    ∀ t ∈ g.constraint, TypeExpr.Normal f.genericNames t
  parameters : ∀ p ∈ f.parameters, isName p.name.toList = true ∧
    TypeExpr.Normal f.genericNames p.type
  returnType : TypeExpr.Normal f.genericNames f.returnType

/-- What holds of a signature in normal form is more than what the binding
asks of it. -/
theorem Normal.parsed {f : Signature} (h : f.Normal) : f.Parsed where
  name := h.name
  generics g hg := (h.generics g hg).1
  parameters p hp := ⟨(h.parameters p hp).1, (h.parameters p hp).2.scoped⟩
  returnType := h.returnType.scoped

variable {text entry inside tail : List Char} {generics : List String}

/-- Every type that the reader returns is in normal form, within the type
parameters in scope. -/
theorem normal_of_readType {t : TypeExpr} (h : readType generics text = .ok t) :
    TypeExpr.Normal generics t :=
  TypeExpr.normal_of_parse (mapError_ok h)

/-! ### Type parameters -/

/-- A type parameter has a name that is one, since the entry is refused
otherwise. -/
theorem isName_of_genericParts {name : String} {constraint : Option (List Char)}
    (h : genericParts entry = .ok (name, constraint)) : isName name.toList = true := by
  rw [genericParts_eq] at h
  obtain ⟨left, -, h⟩ := bind_ok h
  unfold constrainedName at h
  split at h
  · next hName =>
      split at h
      · cases h
        rwa [String.toList_ofList]
      · split at h
        · cases h
          rwa [String.toList_ofList]
        · cases h
  · cases h

theorem name_of_readGeneric {part : String × Option (List Char)} {g : GenericParameter}
    (h : readGeneric generics part = .ok g) : g.name = part.1 := by
  obtain ⟨name, constraint⟩ := part
  cases constraint with
  | none =>
      cases h
      rfl
  | some text =>
      obtain ⟨t, -, h⟩ := bind_ok h
      cases h
      rfl

/-- The names are known before the constraints are read, which lets a
constraint speak of later parameters. -/
theorem names_of_readGeneric {names : List String} {declared : List (String × Option (List Char))}
    {found : List GenericParameter}
    (h : List.Forall₂ (fun part g => readGeneric names part = .ok g) declared found) :
    found.map (·.name) = declared.map (·.1) := by
  induction h with
  | nil => rfl
  | cons hHead _ ih => rw [List.map_cons, List.map_cons, name_of_readGeneric hHead, ih]

theorem normal_of_readGeneric {names : List String} {part : String × Option (List Char)}
    {g : GenericParameter} (h : readGeneric names part = .ok g) :
    ∀ t ∈ g.constraint, TypeExpr.Normal names t := by
  obtain ⟨name, constraint⟩ := part
  cases constraint with
  | none =>
      cases h
      simp
  | some text =>
      obtain ⟨t, hType, h⟩ := bind_ok h
      cases h
      simpa using normal_of_readType hType

/-- The constraints of a clause may refer to all type parameters of the
clause. -/
theorem normal_of_readGenerics {found : List GenericParameter} (h : readGenerics text = .ok found) :
    ∀ g ∈ found, isName g.name.toList = true ∧
      ∀ t ∈ g.constraint, TypeExpr.Normal (found.map (·.name)) t := by
  obtain ⟨list, -, h⟩ := bind_ok h
  obtain ⟨declared, hDeclared, h⟩ := bind_ok h
  intro g hg
  obtain ⟨part, hPart, hRead⟩ := mapM_ok_mem h hg
  obtain ⟨entry, -, hEntry⟩ := mapM_ok_mem hDeclared hPart
  rw [name_of_readGeneric hRead, names_of_readGeneric (mapM_ok_iff.mp h)]
  exact ⟨isName_of_genericParts hEntry, normal_of_readGeneric hRead⟩

/-- The type parameters of a clause have names, and their constraints are in
normal form over all of these. -/
theorem normal_of_readGenericClause {found : List GenericParameter} {rest : List Char}
    (h : readGenericClause text = .ok (found, rest)) :
    ∀ g ∈ found, isName g.name.toList = true ∧
      ∀ t ∈ g.constraint, TypeExpr.Normal (found.map (·.name)) t := by
  unfold readGenericClause at h
  split at h
  · obtain ⟨group, -, h⟩ := bind_ok h
    cases group with
    | none => cases h
    | some cut =>
        obtain ⟨inside, behind⟩ := cut
        obtain ⟨list, hList, h⟩ := bind_ok h
        cases h
        exact normal_of_readGenerics hList
  · cases h
    simp

/-! ### Parameters -/

/-- A parameter that was read has a name, and a type in normal form. -/
theorem normal_of_namedParameter {declared name : List Char} {type : Option (List Char)}
    {optional : Bool} {p : Parameter}
    (h : namedParameter generics declared type name optional = .ok (some p)) :
    isName p.name.toList = true ∧ TypeExpr.Normal generics p.type := by
  unfold namedParameter at h
  split at h
  · next hName =>
      split at h
      · cases h
      · obtain ⟨t, hType, h⟩ := map_ok h
        cases h
        refine ⟨by rwa [String.toList_ofList], ?_⟩
        cases type with
        | none =>
            cases hType
            exact .primitive .any
        | some text => exact normal_of_readType hType
  · cases h

theorem normal_of_readParameters {found : List Parameter}
    (h : readParameters generics text = .ok found) :
    ∀ p ∈ found, isName p.name.toList = true ∧ TypeExpr.Normal generics p.type := by
  obtain ⟨list, -, h⟩ := bind_ok h
  obtain ⟨read, hRead, h⟩ := bind_ok h
  cases h
  intro p hp
  obtain ⟨kept, hKept, rfl⟩ := List.mem_filterMap.mp hp
  obtain ⟨entry, -, hEntry⟩ := mapM_ok_mem hRead hKept
  rw [readParameter_eq] at hEntry
  obtain ⟨⟨declared, type⟩, -, hNamed⟩ := bind_ok hEntry
  exact normal_of_namedParameter hNamed

theorem normal_of_readReturnType {t : TypeExpr} (h : readReturnType generics tail = .ok t) :
    TypeExpr.Normal generics t := by
  unfold readReturnType at h
  split at h
  · cases h
    exact .primitive .any
  · exact normal_of_readType h
  · cases h

/-! ### Signatures -/

/-- A signature that was parsed is in normal form. -/
theorem normal_of_parse {f : Signature} (h : parse text = .ok f) : f.Normal := by
  rw [parse_eq] at h
  split at h
  · next hName =>
      obtain ⟨⟨generics, rest⟩, hClause, h⟩ := bind_ok h
      dsimp only at h
      split at h
      · obtain ⟨group, -, h⟩ := bind_ok h
        cases group with
        | none => cases h
        | some cut =>
            obtain ⟨inside, tail⟩ := cut
            obtain ⟨parameters, hParameters, h⟩ := bind_ok h
            obtain ⟨returnType, hReturnType, h⟩ := bind_ok h
            cases h
            exact ⟨by rwa [String.toList_ofList], normal_of_readGenericClause hClause,
              normal_of_readParameters hParameters, normal_of_readReturnType hReturnType⟩
      · cases h
  · cases h

/-- The awaited result is in scope of the function as its return type is. -/
theorem Parsed.resultType {f : Signature} (h : f.Parsed) : Scoped f.genericNames f.resultType :=
  h.returnType.awaited

end Signature

/-! ### Modules -/

open Declaration

/-- So is the function that is found in a statement. -/
theorem normal_of_ofStatement {statement : Statement} {f : Signature}
    (h : Finding.ofStatement statement = .function f) : f.Normal := by
  unfold Finding.ofStatement at h
  split at h
  · cases h
  · split at h
    · next read hParse =>
        cases h
        obtain ⟨name, generics, parameters, returnType⟩ := Signature.normal_of_parse hParse
        exact ⟨name, generics, parameters, returnType⟩
    · cases h

/-- And every function that is kept of a list of statements. -/
theorem normal_of_mem_readStatements {path : String} {source : List Char} {taken : List String}
    {found : List Statement} {f : Signature}
    (h : f ∈ (readStatements path source taken found).1) : f.Normal := by
  obtain ⟨statement, -, hFinding⟩ := exists_finding_of_mem_readStatements h
  exact normal_of_ofStatement hFinding

/-- All functions of a module that was read are in normal form, with their
own type parameters in scope. -/
theorem normal_of_readModule {path source : String} {m : ScriptModule}
    (h : (readModule path source).module? = some m) : ∀ f ∈ m.functions, f.Normal := by
  obtain ⟨found, -, rfl⟩ := exists_statements_of_readModule h
  exact fun f hf => normal_of_mem_readStatements hf

/-- A module that was read is named after its path, and its functions were
read. -/
structure ScriptModule.Parsed (m : ScriptModule) : Prop where
  ofPath : m = .ofPath m.path m.functions
  functions : ∀ f ∈ m.functions, f.Parsed

/-- A module that was read is one as the binding expects it. -/
theorem parsed_of_readModule {path source : String} {m : ScriptModule}
    (h : (readModule path source).module? = some m) : m.Parsed := by
  refine ⟨?_, fun f hf => (normal_of_readModule h f hf).parsed⟩
  obtain ⟨found, -, rfl⟩ := exists_statements_of_readModule h
  rfl

theorem parsed_of_mem_readModulesFrom {kept : List String} {sources : List (String × String)}
    {m : ScriptModule} (h : m ∈ (readModulesFrom kept sources).modules) : m.Parsed := by
  induction sources generalizing kept with
  | nil => cases h
  | cons pair rest ih =>
      obtain ⟨path, source⟩ := pair
      simp only [readModulesFrom] at h
      split at h
      · exact ih h
      · next found hFound =>
          split at h
          · exact ih h
          · rcases List.mem_cons.mp h with rfl | hRest
            · exact parsed_of_readModule hFound
            · exact ih hRest

/-- All modules that are read of a list of sources are such as the binding
assumes them to be. -/
theorem parsed_of_mem_readModules {sources : List (String × String)} {m : ScriptModule}
    (h : m ∈ (readModules sources).modules) : m.Parsed :=
  parsed_of_mem_readModulesFrom h

/-- Every type that is read is in normal form. So are all types of the
functions of a module, with the type parameters of their function in
scope. -/
theorem normal_of_reading :
    (∀ generics text t, TypeExpr.parse generics text = .ok t → TypeExpr.Normal generics t) ∧
      ∀ path source m, (readModule path source).module? = some m → ∀ f ∈ m.functions, f.Normal :=
  ⟨fun _ _ _ h => TypeExpr.normal_of_parse h, fun _ _ _ h => normal_of_readModule h⟩

/-- A union that repeats a member, and a function with a constraint. -/
theorem normal_of_reading_keyed :
    let source := "export function pick<T, K extends keyof T>(from: T | Map<K> | T): Promise<K[]>;"
    let f : Signature := {
      name := "pick"
      generics := [⟨"T", none⟩, ⟨"K", some (.keyOf (.genericRef "T"))⟩]
      parameters := [⟨"from", .unionOf [.genericRef "T", .reference "Map<K>"], false⟩]
      returnType := .promiseOf (.arrayOf (.genericRef "K"))
      doc := none }
    (TypeExpr.parse ["T"] "T | K | T".toList = .ok (.unionOf [.genericRef "T", .reference "K"]) ∧
      TypeExpr.Normal ["T"] (.unionOf [.genericRef "T", .reference "K"])) ∧
      (readModule "m.d.ts" source).module? = some (.ofPath "m.d.ts" [f]) ∧ f.Normal := by
  intro source f
  have hText : TypeExpr.parse ["T"] "T | K | T".toList =
      .ok (.unionOf [.genericRef "T", .reference "K"]) := by decide +kernel
  have hModule : (readModule "m.d.ts" source).module? = some (.ofPath "m.d.ts" [f]) := by
    decide +kernel
  exact ⟨⟨hText, normal_of_reading.1 _ _ _ hText⟩, hModule,
    normal_of_reading.2 _ _ _ hModule f List.mem_cons_self⟩

end ScriptBindings
