import ScriptBindings.Proofs.Binding.Generics
import ScriptBindings.Proofs.HostType.Origin

/-! Where a method uses the type parameters that overrides add to it. It has
those of every type of the function, constraints included, and a constraint
need not be written. So a type parameter that only such a constraint
introduces is left without use. -/
namespace ScriptBindings

open Outcomes TypeMap

/-- The overrides mention all their type parameters. -/
def OverrideTable.MentionGenerics (isWord : Char → Bool) (table : OverrideTable) : Prop :=
  ∀ key entry, table.find? key = some entry →
    ∀ generic ∈ entry.generics, Mentions isWord generic.name entry.host

/-- The name occurs in the host type of a parameter, in the result type, or
in the constraint of one of the function's own type parameters. -/
inductive Method.Uses (isWord : Char → Bool) (f : Signature) (method : Method) (name : String) :
    Prop where
  | parameter {host : String} (hHost : host ∈ method.parameters.map (·.hostType))
      (hMentions : Mentions isWord name host)
  | result (hMentions : Mentions isWord name method.returnType)
  | constraint {own text : String} (hOwn : own ∈ f.genericNames)
      (hText : (own, text) ∈ method.constraints) (hMentions : Mentions isWord name text)

/-- A constraint of the function is not written: it does not come to a
constraint of the host language, or another one stands for the same name. -/
inductive Method.Drops (m : TypeMap) (method : Method) (own : GenericParameter) (t : TypeExpr) :
    Prop where
  | formless (hText : m.constraint? t = none)
  | displaced {other : String} (hOther : (own.name, other) ∈ method.constraints)
      (hText : m.constraint? t ≠ some other)

/-- Nothing but constraints that are not written introduces the type
parameter. -/
structure Method.OnlyDropped (m : TypeMap) (f : Signature) (method : Method) (name : String) :
    Prop where
  parameters : ∀ p ∈ f.parameters, name ∉ (m.introduced p.type).map (·.name)
  result : name ∉ (m.introduced f.resultType).map (·.name)
  constraints : ∀ own ∈ f.generics, ∀ t, own.constraint = some t →
    name ∈ (m.introduced t).map (·.name) → method.Drops m own t

variable {isWord : Char → Bool} {generic : OverrideGeneric} {f : Signature} {name : String}

/-- It suffices to look through the entries, since every override that is
found is one of them. -/
theorem OverrideTable.mentionGenerics_of_entries {table : OverrideTable}
    (h : ∀ entry ∈ table.entries, ∀ generic ∈ entry.2.generics,
      Mentions isWord generic.name entry.2.host) : table.MentionGenerics isWord :=
  fun _ _ hEntry => h _ (SortedEntries.mem_of_lookup hEntry)

/-- The host type of a type mentions the type parameters that the type
introduces. -/
theorem TypeMap.mentions_host {m : TypeMap} {t : TypeExpr} (hMarks : SparesMarks isWord)
    (hOverrides : m.overrides.MentionGenerics isWord) (h : name ∈ (m.introduced t).map (·.name)) :
    Mentions isWord name (m.host t) := by
  obtain ⟨generic, hGeneric, rfl⟩ := List.mem_map.mp h
  obtain ⟨key, entry, hOrigin, hEntry⟩ := exists_comesFrom_of_mem hGeneric
  exact (hOverrides key entry hOrigin.find? generic hEntry).of_comesFrom hMarks hOrigin

namespace Generator

variable {g : Generator}

/-- The mark of an optional parameter leaves whole what its host type
mentions. -/
theorem mentions_parameterHost {p : Parameter} (hMarks : SparesMarks isWord)
    (h : Mentions isWord name (g.typeMap.host p.type)) :
    Mentions isWord name (g.parameterHost p) := by
  unfold parameterHost
  split
  · exact h.nullable hMarks
  · exact h

theorem mentions_returnType {method : Method} (hMarks : SparesMarks isWord)
    (h : Mentions isWord name method.result) : Mentions isWord name method.returnType := by
  unfold Method.returnType
  split
  · exact h.task hMarks
  · exact h

/-- For a type parameter with a constraint some constraint is written. -/
theorem exists_mem_constraints {own : GenericParameter} {t : TypeExpr} {text : String}
    (hOwn : own ∈ f.generics) (ht : own.constraint = some t)
    (hText : g.typeMap.constraint? t = some text) :
    ∃ other, (own.name, other) ∈ (g.genericClause f).constraints := by
  have hSome : (g.typeMap.ownConstraint? f.generics own.name).isSome := by
    refine List.findSome?_isSome_iff.mpr ⟨own, List.mem_filter.mpr ⟨hOwn, beq_self_eq_true _⟩, ?_⟩
    rw [ht, Option.bind_some, hText, Option.isSome_some]
  have hLookup : ((g.genericClause f).constraints.lookup own.name).isSome := by
    rw [genericClause_eq, GenericClause.lookup_foldl_addOwn, Option.isSome_or, hSome,
      Bool.or_true]
  obtain ⟨other, hOther⟩ := Option.isSome_iff_exists.mp hLookup
  exact ⟨other, SortedEntries.mem_of_lookup hOther⟩

/-- What an override introduces is always listed, even where nothing of the
method needs it. -/
theorem mem_generics_of_introduced (m : ScriptModule) (flavour : Flavour)
    (h : generic ∈ g.typeMap.introducedBy f) : generic.name ∈ (g.method m f flavour).generics := by
  rw [method, names_genericClause, List.mem_eraseDups]
  exact List.mem_append_left _ (List.mem_map_of_mem h)

section Uses

variable {m : ScriptModule} {flavour : Flavour}

/-- A type parameter that the type of a parameter introduces stands in its
host type. -/
theorem uses_of_parameter {p : Parameter} (hMarks : SparesMarks isWord)
    (hOverrides : g.typeMap.overrides.MentionGenerics isWord) (hp : p ∈ f.parameters)
    (h : name ∈ (g.typeMap.introduced p.type).map (·.name)) :
    (g.method m f flavour).Uses isWord f name := by
  refine .parameter ?_ (mentions_parameterHost hMarks (mentions_host hMarks hOverrides h))
  rw [method, hostTypes_hostParameters]
  exact List.mem_map_of_mem hp

/-- A type parameter that the awaited result introduces stands in the return
type, also inside a task. -/
theorem uses_of_result (hMarks : SparesMarks isWord)
    (hOverrides : g.typeMap.overrides.MentionGenerics isWord)
    (h : name ∈ (g.typeMap.introduced f.resultType).map (·.name)) :
    (g.method m f flavour).Uses isWord f name :=
  .result (mentions_returnType hMarks (mentions_host hMarks hOverrides h))

/-- A constraint is written and has the type parameters that it introduces,
or it is dropped with them. -/
theorem uses_or_drops {own : GenericParameter} {t : TypeExpr} (hMarks : SparesMarks isWord)
    (hOverrides : g.typeMap.overrides.MentionGenerics isWord) (hOwn : own ∈ f.generics)
    (ht : own.constraint = some t) (h : name ∈ (g.typeMap.introduced t).map (·.name)) :
    (g.method m f flavour).Uses isWord f name ∨
      (g.method m f flavour).Drops g.typeMap own t := by
  cases hText : g.typeMap.constraint? t with
  | none => exact .inr (.formless hText)
  | some text =>
      have hHost := mentions_host hMarks hOverrides h
      rw [host_of_constraint? hText] at hHost
      obtain ⟨other, hOther⟩ := exists_mem_constraints hOwn ht hText
      by_cases hSame : text = other
      · exact .inl (.constraint (List.mem_map_of_mem hOwn) hOther (hSame ▸ hHost))
      · exact .inr (.displaced hOther (by rwa [hText, ne_eq, Option.some_inj]))

/-- A type parameter without a use is introduced by no parameter and not by
the result, and all constraints that introduce it are dropped. -/
theorem uses_or_onlyDropped (hMarks : SparesMarks isWord)
    (hOverrides : g.typeMap.overrides.MentionGenerics isWord) (m : ScriptModule)
    (flavour : Flavour) (name : String) :
    (g.method m f flavour).Uses isWord f name ∨
      (g.method m f flavour).OnlyDropped g.typeMap f name := by
  refine or_iff_not_imp_left.mpr fun hUnused => ⟨fun p hp h => ?_, fun h => ?_, ?_⟩
  · exact hUnused (uses_of_parameter hMarks hOverrides hp h)
  · exact hUnused (uses_of_result hMarks hOverrides h)
  · intro own hOwn t ht h
    exact (uses_or_drops hMarks hOverrides hOwn ht h).resolve_left hUnused

end Uses

end Generator

/-- Where the overrides mention their type parameters, every method that is
declared uses those that they add to it, except for those that nothing
introduces but constraints that are not written for it. -/
theorem introducedUse_of_generate {s : Settings} {g : Generator}
    (hg : Generator.ofSettings s = .ok g) (hMarks : SparesMarks isWord)
    (hOverrides : s.overrides.MentionGenerics isWord) (modules : List ScriptModule) :
    (∀ generated, generate s modules = .ok generated → generated = g.emit (g.plan modules)) ∧
      ∀ plan ∈ g.plan modules, ∀ bound ∈ plan.methods,
        (g.emit (g.plan modules)).Declares plan.fragmentName bound.2 ∧
          ∀ generic ∈ (TypeMap.ofSettings s).introducedBy bound.1,
            generic.name ∈ bound.2.generics ∧
              (bound.2.Uses isWord bound.1 generic.name ∨
                bound.2.OnlyDropped (.ofSettings s) bound.1 generic.name) := by
  obtain ⟨rfl, -⟩ := Generator.ofSettings_ok hg
  have hUses : ∀ plan ∈ g.plan modules, ∀ bound ∈ plan.methods,
      ∀ generic ∈ g.typeMap.introducedBy bound.1, generic.name ∈ bound.2.generics ∧
        (bound.2.Uses isWord bound.1 generic.name ∨
          bound.2.OnlyDropped g.typeMap bound.1 generic.name) :=
    Generator.forall_bound_plan_iff.mpr fun m _ f _ flavour _ generic hGeneric =>
      ⟨Generator.mem_generics_of_introduced m flavour hGeneric,
        Generator.uses_or_onlyDropped hMarks hOverrides m flavour generic.name⟩
  exact ⟨fun _ => Generator.eq_emit_of_generate hg, fun plan hPlan bound hBound =>
    ⟨Generator.declares_emit modules plan hPlan bound hBound, hUses plan hPlan bound hBound⟩⟩

/-- Overrides for an element of an optional parameter, for a constraint that
is written, and for the elements of one that is not, which are a part of the
result as well. -/
theorem introducedUse_of_generate_overrides :
    let isWord := fun c => Text.isLetterOrNumber c || c == '_'
    let number : OverrideGeneric := ⟨"TNumber", some "INumber<TNumber>"⟩
    let unit : OverrideGeneric := ⟨"TUnit", none⟩
    let label : OverrideGeneric := ⟨"TLabel", none⟩
    let s : Settings := { overrides := .ofList [("number", .generic "TNumber" [number]),
      ("Shape", .generic "IShape<TUnit>" [unit]), ("Label", .generic "Tag<TLabel>" [label])] }
    let f : Signature := {
      name := "area"
      generics := [⟨"T", some (.reference "Shape")⟩, ⟨"K", some (.arrayOf (.reference "Label"))⟩]
      parameters := [⟨"shape", .genericRef "T", false⟩,
        ⟨"sizes", .arrayOf (.primitive .number), true⟩]
      returnType := .promiseOf (.unionOf [.reference "Label", .primitive .null])
      doc := none }
    SparesMarks isWord ∧ s.overrides.MentionGenerics isWord ∧
      (TypeMap.ofSettings s).introducedBy f = [number, label, unit, label] ∧
      ∃ g, Generator.ofSettings s = .ok g ∧ ∃ plan ∈ g.plan [.ofPath "m.d.ts" [f]],
        ∃ bound ∈ plan.methods, bound.1 = f ∧
          (g.emit (g.plan [.ofPath "m.d.ts" [f]])).Declares plan.fragmentName bound.2 ∧
          bound.2.constraints = [("TNumber", "INumber<TNumber>"), ("T", "IShape<TUnit>")] ∧
          ∀ generic ∈ [number, unit, label], bound.2.Uses isWord f generic.name := by
  intro isWord number unit label s f
  have hNone : "<>[]?".toList.any isWord = false := by decide +kernel
  have hMarks : SparesMarks isWord := fun c hc =>
    Bool.eq_false_iff.mpr (List.any_eq_false.mp hNone c hc)
  have hOverrides : s.overrides.MentionGenerics isWord :=
    OverrideTable.mentionGenerics_of_entries (by decide +kernel)
  have hIntroduced : (TypeMap.ofSettings s).introducedBy f = [number, label, unit, label] := by
    decide +kernel
  obtain ⟨g, hg, plan, hPlan, bound, hBound, hTest⟩ :=
    Generator.exists_bound_of_any s [.ofPath "m.d.ts" [f]]
      (fun bound => bound.1 == f && bound.2.constraints ==
        [("TNumber", "INumber<TNumber>"), ("T", "IShape<TUnit>")])
      (by decide +kernel)
  rw [Bool.and_eq_true, beq_iff_eq, beq_iff_eq] at hTest
  obtain ⟨hFunction, hConstraints⟩ := hTest
  obtain ⟨hDeclares, hUse⟩ := (introducedUse_of_generate hg hMarks hOverrides _).2 plan hPlan bound
    hBound
  rw [hFunction, hIntroduced] at hUse
  have hKnown : ∀ generic ∈ [number, unit, label], generic ∈ [number, label, unit, label] := by simp
  refine ⟨hMarks, hOverrides, hIntroduced, g, hg, plan, hPlan, bound, hBound, hFunction, hDeclares,
    hConstraints, fun generic hGeneric =>
      (hUse generic (hKnown generic hGeneric)).2.resolve_right fun hDropped => ?_⟩
  simp only [List.mem_cons, List.not_mem_nil, or_false] at hGeneric
  rcases hGeneric with rfl | rfl | rfl
  · exact hDropped.parameters _ (List.mem_cons_of_mem _ List.mem_cons_self) (by decide +kernel)
  · have hText : (TypeMap.ofSettings s).constraint? (.reference "Shape") = some "IShape<TUnit>" := by
      decide +kernel
    cases hDropped.constraints _ List.mem_cons_self _ rfl (by decide +kernel) with
    | formless hNone => cases hText.symm.trans hNone
    | @displaced other hOther hApart =>
        rw [hConstraints] at hOther
        have hSame : other = "IShape<TUnit>" := by simpa using hOther
        exact hApart (hSame ▸ hText)
  · exact hDropped.result (by decide +kernel)

/-- The constraint that is an array has no form in the host language, and
for the other one that of an override with the same name stands. Their type
parameters are added nevertheless, and nothing in the method mentions
them. -/
theorem introduced_without_use :
    let number : OverrideGeneric := ⟨"TNumber", some "INumber<TNumber>"⟩
    let unit : OverrideGeneric := ⟨"TUnit", none⟩
    let s : Settings := { overrides := .ofList [("number", .generic "TNumber" [number]),
      ("Shape", .generic "IShape<TUnit>" [unit]),
      ("string", .generic "TText" [⟨"TText", some "IText"⟩])] }
    let source :=
      "export function f<T extends number[], TText extends Shape>(a: T, b: TText, c: string): void;"
    let f : Signature := {
      name := "f"
      generics := [⟨"T", some (.arrayOf (.primitive .number))⟩,
        ⟨"TText", some (.reference "Shape")⟩]
      parameters := [⟨"a", .genericRef "T", false⟩, ⟨"b", .genericRef "TText", false⟩,
        ⟨"c", .primitive .string, false⟩]
      returnType := .primitive .void
      doc := none }
    let method : Method := {
      flavour := .trySync
      name := "F"
      result := "void"
      generics := ["TText", "TNumber", "TUnit", "T"]
      constraints := [("TText", "IText"), ("TNumber", "INumber<TNumber>")]
      parameters := [⟨"T", "a", false⟩, ⟨"TText", "b", false⟩, ⟨"TText", "c", false⟩]
      token := "cancellationToken" }
    s.overrides.MentionGenerics (fun _ => false) ∧
      (readModule "m.d.ts" source).module? = some (.ofPath "m.d.ts" [f]) ∧
      (∃ generated, generate s [.ofPath "m.d.ts" [f]] = .ok generated) ∧
      (∃ g, Generator.ofSettings s = .ok g ∧ ∃ plan ∈ g.plan [.ofPath "m.d.ts" [f]],
        (f, method) ∈ plan.methods) ∧
      ∀ generic ∈ [number, unit], generic ∈ (TypeMap.ofSettings s).introducedBy f ∧
        ¬method.Uses (fun _ => false) f generic.name := by
  intro number unit s source f method
  have hOverrides : s.overrides.MentionGenerics (fun _ => false) :=
    OverrideTable.mentionGenerics_of_entries (by decide +kernel)
  have hOk : (generate s [.ofPath "m.d.ts" [f]]).map (fun _ => ()) = .ok () := by decide +kernel
  obtain ⟨generated, hGenerated, -⟩ := map_ok hOk
  obtain ⟨g, hg, plan, hPlan, bound, hBound, hTest⟩ :=
    Generator.exists_bound_of_any s [.ofPath "m.d.ts" [f]] (· == (f, method)) (by decide +kernel)
  have hIntroduced : ∀ generic ∈ [number, unit],
      generic ∈ (TypeMap.ofSettings s).introducedBy f := by decide +kernel
  have hHosts : ∀ generic ∈ [number, unit], ∀ host ∈ method.parameters.map (·.hostType),
      ¬Mentions (fun _ => false) generic.name host := by decide
  have hResult : ∀ generic ∈ [number, unit],
      ¬Mentions (fun _ => false) generic.name method.returnType := by decide
  have hConstraints : ∀ generic ∈ [number, unit], ∀ clause ∈ method.constraints,
      clause.1 ∈ f.genericNames → ¬Mentions (fun _ => false) generic.name clause.2 := by decide
  refine ⟨hOverrides, by decide +kernel, ⟨generated, hGenerated⟩,
    ⟨g, hg, plan, hPlan, beq_iff_eq.mp hTest ▸ hBound⟩,
    fun generic hGeneric => ⟨hIntroduced generic hGeneric, fun hUses => ?_⟩⟩
  cases hUses with
  | parameter hHost hMentions => exact hHosts generic hGeneric _ hHost hMentions
  | result hMentions => exact hResult generic hGeneric hMentions
  | constraint hOwn hText hMentions => exact hConstraints generic hGeneric _ hText hOwn hMentions

end ScriptBindings
