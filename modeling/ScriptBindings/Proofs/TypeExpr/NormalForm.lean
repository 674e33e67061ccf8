import ScriptBindings.Proofs.TypeExpr.Parsed

/-! The normal form of the types that are read. A union has at least two
members, all different, a type parameter is referred to by a name in scope
that means no keyword type, and a reference is a text in its one layout that
means neither. -/
namespace ScriptBindings.TypeExpr

open Text ScriptBindings.Bracket

/-- The normal types, with these type parameters in scope. -/
inductive Normal (generics : List String) : TypeExpr → Prop where
  | primitive (p : Primitive) : Normal generics (.primitive p)
  | genericRef {name : String} (hName : isName name.toList = true)
      (hKeyword : Primitive.ofKeyword? name = none) (hScope : name ∈ generics) :
      Normal generics (.genericRef name)
  | reference {text : String} (hNil : text ≠ "") (hWords : normalise text.toList = text.toList)
      (hKeyword : Primitive.ofKeyword? text = none)
      (hScope : isName text.toList = true → text ∉ generics) : Normal generics (.reference text)
  | arrayOf {element : TypeExpr} (hElement : Normal generics element) :
      Normal generics (.arrayOf element)
  | promiseOf {result : TypeExpr} (hResult : Normal generics result) :
      Normal generics (.promiseOf result)
  | keyOf {target : TypeExpr} (hTarget : Normal generics target) : Normal generics (.keyOf target)
  | unionOf {members : List TypeExpr} (hMembers : ∀ t ∈ members, Normal generics t)
      (hNodup : members.Nodup) (hTwo : 2 ≤ members.length) : Normal generics (.unionOf members)

variable {generics : List String} {text : List Char} {name : String} {t : TypeExpr}

/-! ### References -/

/-- What is no name is no keyword either. -/
theorem ofKeyword?_eq_none (h : isName name.toList ≠ true) : Primitive.ofKeyword? name = none := by
  cases hKeyword : Primitive.ofKeyword? name with
  | none => rfl
  | some p =>
      have hSame : p.keyword = name := by simpa using List.find?_some hKeyword
      exact absurd (hSame ▸ isName_keyword p) h

/-- A reference to a text that is no name is in normal form if its blanks
are. -/
theorem normal_of_not_name (hNil : name.toList ≠ []) (hWords : normalise name.toList = name.toList)
    (hName : isName name.toList ≠ true) : Normal generics (.reference name) := by
  refine .reference ?_ hWords (ofKeyword?_eq_none hName) fun h => absurd h hName
  rintro rfl
  exact hNil rfl

theorem normal_function (h : FunctionText name.toList) : Normal generics (.reference name) := by
  obtain ⟨before, after, hText, -⟩ := hasArrow_eq_true_iff.mp h.hasArrow_eq
  have hArrow : '=' ∈ name.toList := by
    rw [hText]
    simp [arrow]
  exact normal_of_not_name h.ne_nil h.normal fun hName => not_mem_of_isName hName rfl hArrow

theorem normal_opaqueType (hTrimmed : Trimmed text) (hNil : text ≠ [])
    (hName : isName text ≠ true) : Normal generics (opaqueType text) := by
  have hRelaid := hTrimmed.relaid_normalise
  refine normal_of_not_name ?_ ?_ ?_ <;> rw [String.toList_ofList]
  · exact hRelaid.ne_nil hNil
  · exact hRelaid.symm.normalise_eq
  · intro hWords
    -- a name has one layout only, so that the text would be a name itself
    rw [← hRelaid.symm.eq_of_no_blank fun c hc =>
      isBlank_of_isNameChar (isNameChar_of_isName hWords hc)] at hName
    exact hName hWords

theorem normal_ofPlain (hTrimmed : Trimmed text) (hNil : text ≠ []) :
    Normal generics (ofPlain generics text) := by
  by_cases hName : isName text = true
  · have hText : isName (String.ofList text).toList = true := by rwa [String.toList_ofList]
    rw [ofPlain, if_pos hName]
    split
    · exact .primitive _
    · next hKeyword =>
        split
        · next hScope => exact .genericRef hText hKeyword (List.contains_iff_mem.mp hScope)
        · next hScope =>
            rw [opaqueType, normalise_of_isName hName]
            refine .reference ?_ ?_ hKeyword fun _ hMem => hScope (List.contains_iff_mem.mpr hMem)
            · rwa [← String.toList_inj.ne, String.toList_ofList]
            · rw [String.toList_ofList, normalise_of_isName hName]
  · rw [ofPlain, if_neg hName]
    exact normal_opaqueType hTrimmed hNil hName

/-! ### Readers -/

theorem Leaf.normal (h : Leaf generics t) : Normal generics t := by
  obtain ⟨form, hForm, hLeaf⟩ := h.form
  have hReads := h.reads
  rw [parseMember_of_form h.text.trimmed hForm] at hReads
  cases form with
  | plain =>
      rw [← Except.ok.inj hReads]
      exact normal_ofPlain h.text.trimmed h.text.ne_nil
  | applied name argument =>
      rw [readForm_of_isLeaf hLeaf] at hReads
      have hAngle : '<' ∈ t.canonical.toList := by
        cases Form.of_eq_ok_iff.mp hForm with
        | applied _ _ _ _ found =>
            obtain ⟨front, hText, -⟩ := application?_eq_some_iff.mp found
            rw [hText]
            simp
      rw [← Except.ok.inj hReads]
      exact normal_opaqueType h.text.trimmed h.text.ne_nil fun hName =>
        not_mem_of_isName hName rfl hAngle
  | grouped | readonlyOf | keyOf | array => exact hLeaf.elim

/-- By induction: so is every type that the parser returns, at each of its
nodes. -/
theorem Parsed.normal (h : Parsed generics t) : Normal generics t := by
  induction h with
  | leaf hLeaf => exact hLeaf.normal
  | function hFunction _ => exact normal_function hFunction
  | arrayOf _ ih => exact .arrayOf ih
  | promiseOf _ ih => exact .promiseOf ih
  | keyOf _ ih => exact .keyOf ih
  | unionOf _ hNodup hTwo ih => exact .unionOf ih hNodup hTwo

/-- What is read is in normal form. -/
theorem normal_of_parse (h : parse generics text = .ok t) : Normal generics t := by
  rcases parsed_or_function h with hParsed | ⟨name, rfl, hFunction⟩
  · exact hParsed.normal
  · exact normal_function hFunction

/-- A type parameter that is no name is never looked up, so that its text is
a reference. -/
theorem not_forall_reference_not_mem :
    ¬∀ generics text name, parse generics text = .ok (.reference name) → name ∉ generics := by
  intro h
  exact h ["a b"] "a b".toList "a b" (by decide +kernel) List.mem_cons_self

end ScriptBindings.TypeExpr
