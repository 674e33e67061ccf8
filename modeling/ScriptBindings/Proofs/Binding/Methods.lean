import ScriptBindings.Proofs.Binding.Collisions

/-! The methods of a plan. Each binds one function of a module with one
flavour, and its parameters are those of the function, one by one. -/
namespace ScriptBindings.Generator

open Outcomes

variable {g : Generator} {modules : List ScriptModule}

/-- The host type of a parameter. -/
def parameterHost (g : Generator) (p : Parameter) : String :=
  if p.optional then nullable (g.typeMap.host p.type) else g.typeMap.host p.type

theorem hostParameters_singleton (p : Parameter) :
    g.hostParameters [p] = [⟨g.parameterHost p, g.parameterName p, p.optional⟩] := by
  rw [hostParameters, hostParameters, List.all_nil, Bool.and_true]
  rfl

/-- The types of the bound parameters depend on the declared parameters one
by one, which is what lets them be looked up by position. -/
theorem hostTypes_hostParameters (g : Generator) (parameters : List Parameter) :
    (g.hostParameters parameters).map (·.hostType) = parameters.map g.parameterHost := by
  induction parameters with
  | nil => rfl
  | cons p rest ih => rw [hostParameters, List.map_cons, ih, List.map_cons, parameterHost]

/-- What holds of each parameter alone holds of the parameters side by
side. -/
theorem forall₂_hostParameters {R : Parameter → HostParameter → Prop} {parameters : List Parameter}
    (h : ∀ p ∈ parameters, ∀ hasDefault, R p ⟨g.parameterHost p, g.parameterName p, hasDefault⟩) :
    List.Forall₂ R parameters (g.hostParameters parameters) := by
  induction parameters with
  | nil => exact .nil
  | cons p rest ih =>
      rw [List.forall_mem_cons] at h
      exact .cons (h.1 _) (ih h.2)

/-- The methods of a plan are those of the functions of its modules, one for
each flavour. What holds of them all can be shown for one function at a
time. -/
theorem forall_bound_plan_iff {P : ModulePlan → Signature × Method → Prop} :
    (∀ plan ∈ g.plan modules, ∀ bound ∈ plan.methods, P plan bound) ↔
      ∀ m ∈ modules, ∀ f ∈ m.functions, ∀ flavour ∈ g.flavoursFor f,
        P (g.planModule m) (f, g.method m f flavour) := by
  simp only [plan, planModule, List.forall_mem_map, List.forall_mem_flatMap]

/-- What is generated is made of the plan that the settings give. Beyond
this a success says only that no name of the plan is claimed twice. -/
theorem eq_emit_of_generate {s : Settings} {generated : GeneratedSources}
    (hg : ofSettings s = .ok g) (h : ScriptBindings.generate s modules = .ok generated) :
    generated = g.emit (g.plan modules) := by
  obtain ⟨other, hOther, -, rfl⟩ := (generate_eq_ok_iff _).mp h
  rw [hg] at hOther
  rw [Except.ok.inj hOther]

/-- Valid settings with a method that a test finds in their plan. The test
is run, so that an example need not go through the plan by hand. -/
theorem exists_bound_of_any (s : Settings) (modules : List ScriptModule)
    (test : Signature × Method → Bool)
    (h : ((ofSettings s).map fun g => (g.plan modules).any (·.methods.any test)) = .ok true) :
    ∃ g, ofSettings s = .ok g ∧ ∃ plan ∈ g.plan modules, ∃ bound ∈ plan.methods, test bound := by
  obtain ⟨g, hg, hAny⟩ := map_ok h
  obtain ⟨plan, hPlan, hMethods⟩ := List.any_eq_true.mp hAny
  obtain ⟨bound, hBound, hTest⟩ := List.any_eq_true.mp hMethods
  exact ⟨g, hg, plan, hPlan, bound, hBound, hTest⟩

end ScriptBindings.Generator
