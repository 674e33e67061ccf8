import ScriptBindings.Proofs.Binding.Generics
import ScriptBindings.Proofs.Text.Naming

/-! Names of declaration modules as names of the host. The host knows all
their characters but the `$`: casing, patterns and the escape of keywords
keep a name an identifier, and none of them takes a `$` out of it. -/
namespace ScriptBindings

open Text Outcomes

/-! ### Characters -/

/-- The characters of identifiers of the host, behind the first. -/
def isHostChar (c : Char) : Bool :=
  isLetterOrNumber c || c == '_'

/-- The underscore is what both languages have besides letters and
digits. -/
theorem isHostChar_underscore : isHostChar '_' = true := by
  rw [isHostChar, beq_self_eq_true, Bool.or_true]

/-- What is true of every ASCII character is true of every character of a
name. -/
theorem forall_isNameChar {p : Char → Bool} (h : (List.range 128).all fun n => p (Char.ofNat n))
    {c : Char} (hChar : isNameChar c = true) : p c = true := by
  have hRange := isNameChar_range hChar
  have hAscii := List.all_eq_true.mp h c.toNat (List.mem_range.mpr (by omega))
  rwa [Char.ofNat_toNat] at hAscii

/-- Of the characters of a declared name only the `$` is none of the host's,
which is checked for all of ASCII. -/
theorem isHostChar_iff {c : Char} (h : isNameChar c = true) : isHostChar c = true ↔ c ≠ '$' := by
  have hAll := forall_isNameChar (p := fun c => !isNameChar c || (isHostChar c == (c != '$')))
    (by decide +kernel) h
  rw [h, Bool.not_true, Bool.false_or, beq_iff_eq] at hAll
  rw [hAll, bne_iff_ne]

theorem isNameChar_of_isNameStart {c : Char} (h : isNameStart c = true) : isNameChar c = true := by
  unfold isNameStart at h
  unfold isNameChar Char.isAlphanum
  simp only [Bool.or_eq_true] at h ⊢
  tauto

/-- A letter or underscore begins an identifier, and only the `$` does
not. -/
theorem isHostStart_iff {c : Char} (h : isNameStart c = true) :
    (isLetter c || c == '_') = true ↔ c ≠ '$' := by
  have hAll := forall_isNameChar
    (p := fun c => !isNameStart c || ((isLetter c || c == '_') == (c != '$')))
    (by decide +kernel) (isNameChar_of_isNameStart h)
  rw [h, Bool.not_true, Bool.false_or, beq_iff_eq] at hAll
  rw [hAll, bne_iff_ne]

/-- The upper case of what begins a name begins a name again. -/
theorem exists_upper {c : Char} (h : isNameStart c = true) :
    ∃ d, upper c = [d] ∧ isNameStart d = true ∧ (d = '$' ↔ c = '$') := by
  have hAll := forall_isNameChar
    (p := fun c => !isNameStart c || (upper c).length == 1 &&
      (upper c).all fun d => isNameStart d && ((d == '$') == (c == '$')))
    (by decide +kernel) (isNameChar_of_isNameStart h)
  rw [h, Bool.not_true, Bool.false_or, Bool.and_eq_true, beq_iff_eq] at hAll
  obtain ⟨d, hUpper⟩ := List.length_eq_one_iff.mp hAll.1
  rw [hUpper, List.all_cons, List.all_nil, Bool.and_true, Bool.and_eq_true, beq_iff_eq] at hAll
  refine ⟨d, hUpper, hAll.2.1, ?_⟩
  rw [← beq_iff_eq, hAll.2.2, beq_iff_eq]

/-! ### Names -/

variable {name : List Char}

/-- A name of a declaration module is an identifier of the host unless it
has a `$`. -/
theorem isHostIdentifier_iff (h : isName name = true) :
    isHostIdentifier name = true ↔ '$' ∉ name := by
  cases name with
  | nil => cases h
  | cons first rest =>
      have hChar : ∀ c ∈ rest, isNameChar c = true := fun c hc =>
        isNameChar_of_isName h (List.mem_cons_of_mem first hc)
      have hRest : rest.all isHostChar = true ↔ '$' ∉ rest := by
        rw [List.all_eq_true]
        constructor
        · exact fun hAll hMem => (isHostChar_iff (hChar _ hMem)).mp (hAll _ hMem) rfl
        · exact fun hNone c hc => (isHostChar_iff (hChar c hc)).mpr fun hSame => hNone (hSame ▸ hc)
      rw [isName, Bool.and_eq_true] at h
      change ((isLetter first || first == '_') && rest.all isHostChar) = true ↔ _
      rw [Bool.and_eq_true, isHostStart_iff h.1, hRest, List.mem_cons, not_or, ne_comm]

/-- An identifier is continued by characters of identifiers, whatever they
are. -/
theorem isHostIdentifier_append {rest : List Char} (h : isHostIdentifier name = true)
    (hRest : ∀ c ∈ rest, isHostChar c = true) : isHostIdentifier (name ++ rest) = true := by
  cases name with
  | nil => cases h
  | cons first inner =>
      rw [List.cons_append, isHostIdentifier, Bool.and_eq_true, List.all_append, Bool.and_eq_true]
      rw [isHostIdentifier, Bool.and_eq_true] at h
      exact ⟨h.1, h.2, List.all_eq_true.mpr hRest⟩

/-- Casing the first character gives a name again, with a `$` where there
was one. -/
theorem isName_pascal (h : isName name = true) :
    isName (Casing.pascal.applyChars name) = true ∧
      ('$' ∈ Casing.pascal.applyChars name ↔ '$' ∈ name) := by
  cases name with
  | nil => cases h
  | cons first rest =>
      have hChar : ∀ c ∈ rest, isNameChar c = true := fun c hc =>
        isNameChar_of_isName h (List.mem_cons_of_mem first hc)
      rw [isName, Bool.and_eq_true] at h
      obtain ⟨d, hUpper, hStart, hDollar⟩ := exists_upper h.1
      rw [Casing.applyChars, hUpper, List.singleton_append]
      constructor
      · rw [isName, Bool.and_eq_true, List.all_cons, Bool.and_eq_true]
        exact ⟨hStart, isNameChar_of_isNameStart hStart, List.all_eq_true.mpr hChar⟩
      · rw [List.mem_cons, List.mem_cons, eq_comm, hDollar, eq_comm]

namespace ModulePath

/-- What a character of a file stem becomes in an identifier. -/
def identifierChar (c : Char) : Char :=
  if c.isAlphanum then c else '_'

/-- What a path leaves of a character is a character of names, and never the
`$`. -/
theorem isNameChar_identifierChar (c : Char) :
    isNameChar (identifierChar c) = true ∧ identifierChar c ≠ '$' := by
  unfold identifierChar isNameChar
  split
  · next hAlphanum =>
      refine ⟨by rw [hAlphanum]; rfl, ?_⟩
      rintro rfl
      cases hAlphanum
  · exact ⟨rfl, by decide⟩

theorem isNameStart_of_not_digit {c : Char} (h : isNameChar c = true) (hDigit : ¬c.isDigit = true) :
    isNameStart c = true := by
  unfold isNameChar Char.isAlphanum at h
  unfold isNameStart
  rw [Bool.eq_false_iff.mpr hDigit, Bool.or_false] at h
  exact h

/-- The name of a module is a name that no `$` stands in. -/
theorem isName_identifier (path : List Char) :
    isName (identifier path) = true ∧ '$' ∉ identifier path := by
  unfold identifier
  dsimp only
  generalize dropEnding ".razor" (dropScriptEnding (fileName path)) = stem
  have hChar : ∀ c ∈ stem.map fun c => if c.isAlphanum then c else '_',
      isNameChar c = true ∧ c ≠ '$' :=
    List.forall_mem_map.mpr fun c _ => isNameChar_identifierChar c
  generalize (stem.map fun c => if c.isAlphanum then c else '_') = name at hChar ⊢
  have hAll : name.all isNameChar = true := List.all_eq_true.mpr fun c hc => (hChar c hc).1
  have hNone : '$' ∉ name := fun hMem => (hChar _ hMem).2 rfl
  split
  · exact ⟨rfl, by decide⟩
  · next c rest =>
      split
      · refine ⟨?_, ?_⟩
        · rw [isName, List.all_cons, hAll]
          rfl
        · rw [List.mem_cons, not_or]
          exact ⟨by decide, hNone⟩
      · next hDigit =>
          refine ⟨?_, hNone⟩
          rw [isName, hAll, Bool.and_true]
          exact isNameStart_of_not_digit (hChar c List.mem_cons_self).1 hDigit

end ModulePath

/-! ### The names of a method -/

/-- A name without the `@` of an escaped keyword. -/
def unescaped (name : String) : List Char :=
  (after? ['@'] name.toList).getD name.toList

/-- A declared name has no `@`, so that the one in front of a keyword can be
told apart and taken away. -/
theorem unescaped_escapeKeyword {name : String} (h : isName name.toList = true) :
    unescaped (escapeKeyword name) = name.toList := by
  unfold escapeKeyword unescaped
  split
  · rw [String.toList_append]
    rfl
  · have hNone : after? ['@'] (name.toList ++ []) = none := after?_eq_none_of_name h (by decide)
    rw [List.append_nil] at hNone
    rw [hNone]
    rfl

namespace Generator

variable {g : Generator}

/-- Underscores may be put behind an identifier as often as there is
fuel. -/
theorem isHostIdentifier_extendName (used : List String) (fuel : Nat) {name : String}
    (h : isHostIdentifier name.toList = true) :
    isHostIdentifier (extendName used fuel name).toList = true := by
  induction fuel generalizing name with
  | zero => exact h
  | succ fuel ih =>
      unfold extendName
      split
      · apply ih
        rw [String.toList_append]
        exact isHostIdentifier_append h (List.forall_mem_singleton.mpr isHostChar_underscore)
      · exact h

/-- Without overrides, the type parameters of a method are those of its
function. -/
theorem mem_names_genericClause (hEmpty : g.typeMap.overrides = .empty) (f : Signature)
    {name : String} : name ∈ (g.genericClause f).names ↔ name ∈ f.genericNames := by
  have hIntroduced : g.typeMap.introducedBy f = [] :=
    List.flatMap_eq_nil_iff.mpr fun t _ => TypeMap.introduced_of_empty hEmpty t
  rw [names_genericClause, hIntroduced, List.mem_eraseDups]
  rfl

end Generator

/-- Each name of a method is an identifier exactly when the function
declares the name without a `$`. -/
structure Method.NamesFollow (f : Signature) (m : Method) : Prop where
  name : isHostIdentifier m.name.toList = true ↔ '$' ∉ f.name.toList
  generics : ∀ name, name ∈ m.generics ↔ name ∈ f.genericNames
  generic : ∀ name ∈ m.generics, isHostIdentifier name.toList = true ↔ '$' ∉ name.toList
  parameters : List.Forall₂
    (fun p host => isHostIdentifier (unescaped host.name) = true ↔ '$' ∉ p.name.toList)
    f.parameters m.parameters
  token : isHostIdentifier m.token.toList = true

/-- The default patterns, compiled. -/
def CompiledPatterns.default : CompiledPatterns where
  interface := ⟨[.literal ['I'], .placeholder .name], .verbatim⟩
  runtimeClass := ⟨[.placeholder .name], .verbatim⟩
  module := ⟨[.placeholder .name, .literal "Module".toList], .pascal⟩
  preload := ⟨[.literal "Preload".toList, .placeholder .module], .pascal⟩
  method := ⟨[.placeholder .function], .pascal⟩
  parameter := ⟨[.placeholder .name], .verbatim⟩

/-- The patterns that settings have from the start are accepted, and this is
what they compile to. -/
theorem NamePatterns.compile_default : compile {} = .ok .default := by
  decide +kernel

namespace Generator

variable {g : Generator}

section Default

variable (hSettings : g.settings = {}) (hNames : g.names = .default)

include hNames

/-- Under the default pattern a parameter keeps its name, but for the escape
of keywords. -/
theorem parameterName_of_default (p : Parameter) : g.parameterName p = escapeKeyword p.name := by
  rw [parameterName, hNames]
  exact congrArg escapeKeyword (by simp [CompiledPatterns.default, NamePattern.render,
    NamePattern.renderSegment, Casing.applyChars, NameContext.value, NameContext.ofName])

/-- Under the default pattern the name of a module is put behind a literal,
with a capital. -/
theorem toList_preloadName_of_default (m : ScriptModule) :
    (g.preloadName m).toList = "Preload".toList ++ Casing.pascal.applyChars m.name.toList := by
  rw [preloadName, hNames]
  simp [CompiledPatterns.default, NamePattern.render, NamePattern.renderSegment,
    NameContext.value, moduleContext]

/-- The literal begins the name, and the module's name has characters of
identifiers only. -/
theorem isHostIdentifier_preloadName {m : ScriptModule} (hModule : m.Parsed) :
    isHostIdentifier (g.preloadName m).toList = true := by
  have hName : m.name.toList = ModulePath.identifier m.path.toList := by
    rw [hModule.ofPath, ScriptModule.ofPath, String.toList_ofList]
  obtain ⟨hIdentifier, hDollar⟩ := ModulePath.isName_identifier m.path.toList
  rw [← hName] at hIdentifier hDollar
  obtain ⟨hCased, hSame⟩ := isName_pascal hIdentifier
  rw [toList_preloadName_of_default hNames]
  refine isHostIdentifier_append (by decide +kernel) fun c hc => ?_
  rw [isHostChar_iff (isNameChar_of_isName hCased hc)]
  rintro rfl
  exact hDollar (hSame.mp hc)

/-- A parameter is an identifier of the host exactly if it is declared
without a `$`. -/
theorem isHostIdentifier_parameterName {p : Parameter} (h : isName p.name.toList = true) :
    isHostIdentifier (unescaped (g.parameterName p)) = true ↔ '$' ∉ p.name.toList := by
  rw [parameterName_of_default hNames, unescaped_escapeKeyword h, isHostIdentifier_iff h]

include hSettings

/-- Under the default pattern a method is named like its function, with a
capital and without any ending. -/
theorem toList_methodName_of_default (m : ScriptModule) (f : Signature) (flavour : Flavour) :
    (g.methodName m f flavour).toList = Casing.pascal.applyChars f.name.toList := by
  rw [methodName, hSettings, hNames]
  simp [CompiledPatterns.default, NamePattern.render, NamePattern.renderSegment,
    NameContext.value]

/-- All names of a method are put together from those of the function, each
of which decides for itself. -/
theorem namesFollow_method (m : ScriptModule) {f : Signature} (hParsed : f.Parsed)
    (flavour : Flavour) : (g.method m f flavour).NamesFollow f where
  name := by
    obtain ⟨hCased, hSame⟩ := isName_pascal hParsed.name
    change isHostIdentifier (g.methodName m f flavour).toList = true ↔ _
    rw [toList_methodName_of_default hSettings hNames, isHostIdentifier_iff hCased, hSame]
  generics := fun name => mem_names_genericClause (by rw [typeMap, hSettings]; rfl) f
  generic := by
    intro name hMem
    have hOwn : name ∈ f.genericNames :=
      (mem_names_genericClause (by rw [typeMap, hSettings]; rfl) f).mp hMem
    obtain ⟨generic, hGeneric, rfl⟩ := List.mem_map.mp hOwn
    exact isHostIdentifier_iff (hParsed.generics generic hGeneric)
  parameters := forall₂_hostParameters fun p hp _ =>
    isHostIdentifier_parameterName hNames (hParsed.parameters p hp).1
  token := isHostIdentifier_extendName _ _ (by decide +kernel)

end Default

end Generator

/-- The names that are generated for modules that were read, under the
default settings. The modules' own names are identifiers of the host; the
names of a function are, where they are declared without a `$`. -/
theorem namesFollow_of_generate {sources : List (String × String)} {generated : GeneratedSources}
    (h : generate {} (readModules sources).modules = .ok generated) :
    ∃ g, Generator.ofSettings {} = .ok g ∧
      generated = g.emit (g.plan (readModules sources).modules) ∧
      (∀ plan ∈ g.plan (readModules sources).modules,
        isHostIdentifier plan.preload.toList = true) ∧
      ∀ plan ∈ g.plan (readModules sources).modules,
        ∀ bound ∈ plan.methods, bound.2.NamesFollow bound.1 := by
  obtain ⟨g, hg, -, rfl⟩ := (Generator.generate_eq_ok_iff _).mp h
  obtain ⟨hSettings, hNames, -⟩ := Generator.ofSettings_ok hg
  rw [NamePatterns.compile_default] at hNames
  replace hNames := (Except.ok.inj hNames).symm
  refine ⟨g, hg, rfl, List.forall_mem_map.mpr fun m hm => ?_,
    Generator.forall_bound_plan_iff.mpr fun m hm f hf flavour _ => ?_⟩
  · exact Generator.isHostIdentifier_preloadName hNames (parsed_of_mem_readModules hm)
  · exact Generator.namesFollow_method hSettings hNames m
      ((parsed_of_mem_readModules hm).functions f hf) flavour

/-- A function with a type parameter and a parameter named like a
keyword. -/
theorem namesFollow_of_generate_keyword :
    let modules := (readModules [("m.d.ts", "export function open<T>(class: T): T[];")]).modules
    ∃ generated, generate {} modules = .ok generated ∧
      ∃ g, Generator.ofSettings {} = .ok g ∧ generated = g.emit (g.plan modules) ∧
        (∀ plan ∈ g.plan modules, isHostIdentifier plan.preload.toList = true) ∧
        ∀ plan ∈ g.plan modules, ∀ bound ∈ plan.methods, bound.2.NamesFollow bound.1 := by
  intro modules
  have hOk : (generate {} modules).map (fun _ => ()) = .ok () := by decide +kernel
  obtain ⟨generated, hGenerated, -⟩ := map_ok hOk
  exact ⟨generated, hGenerated, namesFollow_of_generate hGenerated⟩

/-- The names `$get` and `$key` are generated as they are declared. -/
theorem generated_names_with_dollar :
    let modules :=
      (readModules [("m.d.ts", "export function $get($key: string): string;")]).modules
    ∃ generated g, generate {} modules = .ok generated ∧ Generator.ofSettings {} = .ok g ∧
      ∃ plan ∈ g.plan modules, ∃ bound ∈ plan.methods,
        bound.2.name = "$get" ∧ bound.2.parameters.map (·.name) = ["$key"] ∧
          isHostIdentifier "$get".toList = false ∧ isHostIdentifier "$key".toList = false := by
  intro modules
  have hOk : (generate {} modules).map (fun _ => ()) = .ok () := by decide +kernel
  obtain ⟨generated, hGenerated, -⟩ := map_ok hOk
  obtain ⟨g, hg, plan, hPlan, bound, hBound, hNames⟩ :=
    Generator.exists_bound_of_any {} modules
      (fun bound => bound.2.name == "$get" && bound.2.parameters.map (·.name) == ["$key"])
      (by decide +kernel)
  rw [Bool.and_eq_true, beq_iff_eq, beq_iff_eq] at hNames
  exact ⟨generated, g, hGenerated, hg, plan, hPlan, bound, hBound, hNames.1, hNames.2,
    by decide +kernel, by decide +kernel⟩

end ScriptBindings
