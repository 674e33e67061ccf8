import ScriptBindings.Proofs.Binding.Agreement
import ScriptBindings.Proofs.Declaration.Parsed
import ScriptBindings.Proofs.HostType.Structure
import ScriptBindings.Proofs.Repetitions

/-! Type parameters of methods. Those of the overrides come first and those
of the function behind them, each name once, and at most one constraint is
written for a name. -/
namespace ScriptBindings

open TypeExpr

/-- The type parameters that the overrides of a function introduce, with
repetitions. -/
def TypeMap.introducedBy (m : TypeMap) (f : Signature) : List OverrideGeneric :=
  (Generator.typesInOrder f).flatMap m.introduced

/-- The constraint of the first type parameter of this name that has one. -/
def TypeMap.ownConstraint? (m : TypeMap) (generics : List GenericParameter) (name : String) :
    Option String :=
  (generics.filter (·.name == name)).findSome? (·.constraint.bind m.constraint?)

namespace TypeMap

variable {m : TypeMap} {own : List String} {t : TypeExpr} {entry : TypeOverride}
  {host name text : String}

end TypeMap

namespace Generator

namespace GenericClause

variable {m : TypeMap} {clause : GenericClause} {names : List String} {name : String}

/-! ### Names -/

/-- Adding a name that is not there yet is what removing repetitions from
the longer list comes to. -/
theorem names_add (h : clause.names = names.eraseDups) (name : String) :
    (if clause.names.contains name then clause.names else clause.names ++ [name]) =
      (names ++ [name]).eraseDups := by
  simp only [eraseDups_concat, h, List.contains_iff_mem, List.mem_eraseDups]

/-- A type parameter of an override is listed where its name is new, and its
constraint goes with it. -/
theorem names_addIntroduced (generic : OverrideGeneric) (h : clause.names = names.eraseDups) :
    (clause.addIntroduced generic).names = (names ++ [generic.name]).eraseDups := by
  rw [← names_add h, addIntroduced, apply_ite GenericClause.names]

/-- A type parameter of the function is listed where its name is new,
whatever becomes of its constraint. -/
theorem names_addOwn (generic : GenericParameter) (h : clause.names = names.eraseDups) :
    (clause.addOwn m generic).names = (names ++ [generic.name]).eraseDups :=
  names_add h generic.name

/-- Names that are added one by one are those of the whole list, the first
of each. -/
theorem names_foldl {α : Type} {step : GenericClause → α → GenericClause} {nameOf : α → String}
    (hStep : ∀ {clause names} a, clause.names = names.eraseDups →
      (step clause a).names = (names ++ [nameOf a]).eraseDups) (as : List α)
    (h : clause.names = names.eraseDups) :
    (as.foldl step clause).names = (names ++ as.map nameOf).eraseDups := by
  induction as generalizing clause names with
  | nil => simpa using h
  | cons a rest ih =>
      rw [List.foldl_cons, ih (hStep a h), List.append_assoc]
      rfl

/-! ### Constraints -/

/-- Every constraint is for a name of the clause, and no two are for the
same. -/
structure Keyed (clause : GenericClause) : Prop where
  listed : ∀ entry ∈ clause.constraints, entry.1 ∈ clause.names
  single : (clause.constraints.map (·.1)).Nodup

theorem Keyed.mono (h : clause.Keyed) (hNames : clause.names ⊆ names) :
    Keyed ⟨names, clause.constraints⟩ :=
  ⟨fun entry hEntry => hNames (h.listed entry hEntry), h.single⟩

/-- A constraint may be added for a listed name that has none. -/
theorem Keyed.add (h : clause.Keyed) (hNames : clause.names ⊆ names) (hName : name ∈ names)
    (hNew : name ∉ clause.constraints.map (·.1)) (text : String) :
    Keyed ⟨names, clause.constraints ++ [(name, text)]⟩ where
  listed := by
    rw [List.forall_mem_append, List.forall_mem_singleton]
    exact ⟨(h.mono hNames).listed, hName⟩
  single := by
    rw [List.map_append, List.map_singleton, List.nodup_append]
    refine ⟨h.single, List.pairwise_singleton _ _, fun key hKey last hLast hSame => hNew ?_⟩
    obtain rfl := List.mem_singleton.mp hLast
    exact hSame ▸ hKey

/-- A name that is listed already is passed over with its constraint, so
that no second one is added. -/
theorem Keyed.addIntroduced (h : clause.Keyed) (generic : OverrideGeneric) :
    (clause.addIntroduced generic).Keyed := by
  unfold GenericClause.addIntroduced
  split
  · exact h
  · next hNew =>
      have hNames := List.subset_append_left clause.names [generic.name]
      cases generic.constraint with
      | none =>
          simpa using h.mono hNames
      | some text =>
          refine h.add hNames (by simp) (fun hKey => hNew ?_) text
          obtain ⟨entry, hEntry, hSame⟩ := List.mem_map.mp hKey
          exact List.contains_iff_mem.mpr (hSame ▸ h.listed entry hEntry)

theorem any_key_iff :
    clause.constraints.any (·.1 == name) ↔ name ∈ clause.constraints.map (·.1) := by
  simp [List.any_eq_true, List.mem_map]

/-- The function adds a constraint only where it finds none for the name,
also one that an override has added. -/
theorem Keyed.addOwn (h : clause.Keyed) (generic : GenericParameter) :
    (clause.addOwn m generic).Keyed := by
  unfold GenericClause.addOwn
  generalize hAll : (if clause.names.contains generic.name then clause.names
    else clause.names ++ [generic.name]) = all
  have hNames : clause.names ⊆ all ∧ generic.name ∈ all := by
    rw [← hAll]
    split
    · next hTaken => exact ⟨List.Subset.refl _, List.contains_iff_mem.mp hTaken⟩
    · exact ⟨List.subset_append_left _ _, by simp⟩
  split
  · split
    · exact h.mono hNames.1
    · next hNew => exact h.add hNames.1 hNames.2 (any_key_iff.not.mp hNew) _
  · exact h.mono hNames.1

theorem exists_lookup_of_any (h : clause.constraints.any (·.1 == name) = true) :
    ∃ text, clause.constraints.lookup name = some text := by
  obtain ⟨entry, hEntry, hSame⟩ := List.any_eq_true.mp h
  refine Option.ne_none_iff_exists'.mp fun hNone => ?_
  have hOther := List.lookup_eq_none_iff.mp hNone entry hEntry
  simp [beq_iff_eq.mp hSame] at hOther

/-- A constraint is added where there was none for the name. -/
theorem lookup_addOwn (generic : GenericParameter) (name : String) :
    (clause.addOwn m generic).constraints.lookup name =
      (clause.constraints.lookup name).or
        (if generic.name == name then generic.constraint.bind m.constraint? else none) := by
  rw [addOwn]
  cases generic.constraint.bind m.constraint? with
  | none => simp
  | some text =>
      by_cases hTaken : clause.constraints.any (·.1 == generic.name) = true
      · dsimp only
        rw [if_pos hTaken]
        split
        · next hSame =>
            obtain ⟨found, hFound⟩ := exists_lookup_of_any hTaken
            rw [← beq_iff_eq.mp hSame, hFound, Option.some_or]
        · rw [Option.or_none]
      · dsimp only
        rw [if_neg hTaken, List.lookup_append, List.lookup_cons, Bool.beq_comm]
        cases generic.name == name <;> rfl

/-- The first type parameter of a name is asked first, and the next ones
only if it gives no constraint. -/
theorem ownConstraint?_cons (generic : GenericParameter) (rest : List GenericParameter)
    (name : String) :
    m.ownConstraint? (generic :: rest) name =
      (if generic.name == name then generic.constraint.bind m.constraint? else none).or
        (m.ownConstraint? rest name) := by
  rw [TypeMap.ownConstraint?, List.filter_cons]
  split
  · rw [List.findSome?_cons]
    cases generic.constraint.bind m.constraint? <;> rfl
  · rfl

/-- A constraint that is there stays; otherwise the function's own type
parameters are asked in order. -/
theorem lookup_foldl_addOwn (generics : List GenericParameter) (name : String) :
    (generics.foldl (.addOwn m) clause).constraints.lookup name =
      (clause.constraints.lookup name).or (m.ownConstraint? generics name) := by
  induction generics generalizing clause with
  | nil => exact Option.or_none.symm
  | cons generic rest ih =>
      rw [List.foldl_cons, ih, lookup_addOwn, ownConstraint?_cons, Option.or_assoc]

end GenericClause

/-! ### Clauses of methods -/

variable {g : Generator} {f : Signature} {name text : String}

/-- What the overrides introduce, before the function adds its own. -/
def introducedClause (m : TypeMap) (f : Signature) : GenericClause :=
  (m.introducedBy f).foldl .addIntroduced ⟨[], []⟩

/-- The overrides list each of their names once, where it first occurs. -/
theorem names_introducedClause (m : TypeMap) (f : Signature) :
    (introducedClause m f).names = ((m.introducedBy f).map (·.name)).eraseDups := by
  have hNone : GenericClause.names ⟨[], []⟩ = List.eraseDups [] := rfl
  exact GenericClause.names_foldl (fun generic => GenericClause.names_addIntroduced generic) _ hNone

/-- The clause of a function is that of its overrides, to which the function
adds its own. -/
theorem genericClause_eq (g : Generator) (f : Signature) :
    g.genericClause f = f.generics.foldl (.addOwn g.typeMap) (introducedClause g.typeMap f) :=
  rfl

/-- The listed names are those of the overrides and then the function's own,
each where it occurs first. Whether it has a constraint plays no part. -/
theorem names_genericClause (g : Generator) (f : Signature) :
    (g.genericClause f).names =
      ((g.typeMap.introducedBy f).map (·.name) ++ f.genericNames).eraseDups :=
  GenericClause.names_foldl (fun generic => GenericClause.names_addOwn generic) f.generics
    (names_introducedClause g.typeMap f)

end Generator

end ScriptBindings
