import ScriptBindings.Proofs.Binding.Collisions

/-! What settings alone decide. A generator claims the members that it
reserves before it looks at any module, so that they repeat for every list
of modules or for none. Where they do not repeat, every fault is a name that
a module claims. -/
namespace ScriptBindings

open Outcomes

namespace Claim

/-- Who claims a symbol: the scaffold, or the path of a module. -/
def owner : Claim → String
  | .member _ owner | .fragment _ owner | .parameters _ _ owner => owner

variable {earlier later : List Claim} {claim : Claim} {error : GenerationError}

/-- The owner of the claim that collides is reported as the second. -/
theorem Collides.second (h : Collides earlier claim error) :
    ∃ symbol first, error = .duplicateSymbol symbol first claim.owner := by
  cases h with
  | member => exact ⟨_, _, rfl⟩
  | fragment => exact ⟨_, _, rfl⟩
  | parameter => exact ⟨_, _, rfl⟩

/-- Claims that are distinct among themselves collide only with what follows
them. -/
theorem FirstCollision.second_of_distinct (h : FirstCollision (earlier ++ later) error)
    (hEarlier : Distinct earlier) :
    ∃ claim ∈ later, ∃ symbol first, error = .duplicateSymbol symbol first claim.owner := by
  obtain ⟨front, claim, back, hSplit, -, hCollides⟩ := h
  refine ⟨claim, ?_, hCollides.second⟩
  rcases List.append_eq_append_iff.mp hSplit.symm with ⟨rest, hFront, hRest⟩ | ⟨rest, hFront, hRest⟩
  · cases rest with
    | nil =>
        rw [List.nil_append] at hRest
        exact hRest ▸ List.mem_cons_self
    | cons first rest =>
        obtain ⟨rfl, -⟩ := List.cons.inj hRest
        rw [hFront, ← List.singleton_append, ← List.append_assoc] at hEarlier
        exact absurd hCollides ((distinct_concat_iff.mp hEarlier.of_append).2 error)
  · rw [hRest]
    exact List.mem_append_right rest List.mem_cons_self

end Claim

namespace Generator

open Claim

variable {g : Generator}

def reservedClaims (g : Generator) : List Claim :=
  g.reservedMembers.map (.member · scaffoldOwner)

/-- The symbols of the scaffold are entered before those of any module, all
for the same owner. -/
theorem memberEntries_reservedClaims (g : Generator) :
    memberEntries g.reservedClaims = g.reservedMembers.map (·, scaffoldOwner) :=
  memberEntries_members _ _

/-- With no module to claim anything, a plan fails exactly if two symbols of
the scaffold are the same. -/
theorem distinct_reservedClaims_iff : Distinct g.reservedClaims ↔ g.reservedMembers.Nodup :=
  distinct_members_iff

/-- A collision among the reserved names is one of the scaffold with
itself. -/
theorem FirstCollision.of_reserved {error : GenerationError}
    (h : FirstCollision g.reservedClaims error) :
    ∃ symbol ∈ g.reservedMembers, error = .duplicateSymbol symbol scaffoldOwner scaffoldOwner := by
  obtain ⟨front, claim, back, hSplit, -, hCollides⟩ := h
  have hClaim : claim ∈ g.reservedClaims :=
    hSplit ▸ List.mem_append_right front List.mem_cons_self
  obtain ⟨symbol, hSymbol, rfl⟩ := List.mem_map.mp hClaim
  refine ⟨symbol, hSymbol, ?_⟩
  cases hCollides with
  | @member _ first _ hFirst =>
      have hEntry : (symbol, first) ∈ memberEntries g.reservedClaims := by
        rw [hSplit, memberEntries_append]
        exact List.mem_append_left _ (SortedEntries.mem_of_lookup hFirst)
      rw [memberEntries_reservedClaims] at hEntry
      obtain ⟨other, -, hOther⟩ := List.mem_map.mp hEntry
      rw [← (Prod.mk.inj hOther).2]

/-- What is claimed for the modules, behind the reserved names. -/
theorem planningOrder_eq (modules : List ScriptModule) :
    g.planningOrder modules =
      g.reservedClaims ++ (g.plan modules).flatMap (·.claims) := by
  rw [← claims_plan]
  rfl

/-- A module claims its symbols under its own path, so that a collision can
name it. -/
theorem owner_of_mem_claims {m : ScriptModule} {claim : Claim}
    (h : claim ∈ (g.planModule m).claims) : claim.owner = m.path := by
  rw [claims_planModule] at h
  simp only [List.mem_cons, List.mem_flatMap, List.not_mem_nil, or_false] at h
  rcases h with rfl | rfl | ⟨f, -, flavour, -, rfl | rfl⟩ <;> rfl

/-- The fault of a generator is a repeated symbol, with the owner that had
it first. No other fault is left once the settings are accepted. -/
theorem duplicateSymbol_of_generate {modules : List ScriptModule} {error : GenerationError}
    (h : g.generate modules = .error error) :
    ∃ symbol first second, error = .duplicateSymbol symbol first second := by
  rcases g.generate_cases modules with ⟨⟨sources, hOk⟩, -⟩ | ⟨found, hFound, hCollision⟩
  · rw [hOk] at h
    cases h
  · cases hFound.symm.trans h
    obtain ⟨_, claim, _, -, -, hCollides⟩ := hCollision
    obtain ⟨symbol, first, rfl⟩ := hCollides.second
    exact ⟨symbol, first, claim.owner, rfl⟩

/-- Reserved names that do not repeat leave the fault to one of the
modules. -/
theorem second_of_generate (hReserved : g.reservedMembers.Nodup) {modules : List ScriptModule}
    {symbol first second : String}
    (h : g.generate modules = .error (.duplicateSymbol symbol first second)) :
    ∃ m ∈ modules, second = m.path := by
  rcases g.generate_cases modules with ⟨⟨sources, hOk⟩, -⟩ | ⟨error, hError, hCollision⟩
  · rw [hOk] at h
    cases h
  · cases hError.symm.trans h
    rw [planningOrder_eq] at hCollision
    obtain ⟨claim, hClaim, _, _, hSame⟩ :=
      hCollision.second_of_distinct (distinct_reservedClaims_iff.mpr hReserved)
    obtain ⟨plan, hPlan, hClaim⟩ := List.mem_flatMap.mp hClaim
    obtain ⟨m, hm, rfl⟩ := List.mem_map.mp hPlan
    refine ⟨m, hm, ?_⟩
    rw [← owner_of_mem_claims hClaim]
    exact (GenerationError.duplicateSymbol.inj hSame).2.2

/-- Reserved names that repeat are reported before any module is looked
at. -/
theorem generate_of_reserved_repeat (hReserved : ¬g.reservedMembers.Nodup) :
    ∃ symbol ∈ g.reservedMembers, ∀ modules,
      g.generate modules = .error (.duplicateSymbol symbol scaffoldOwner scaffoldOwner) := by
  have hRun := @Ledger.foldlM_record [] g.reservedClaims distinct_nil
  rw [List.nil_append] at hRun
  rcases hRun with ⟨-, hDistinct⟩ | ⟨error, hError, hCollision⟩
  · exact absurd (distinct_reservedClaims_iff.mp hDistinct) hReserved
  · obtain ⟨symbol, hSymbol, rfl⟩ := FirstCollision.of_reserved hCollision
    refine ⟨symbol, hSymbol, fun modules => ?_⟩
    rw [generate, checkClaims, claims_plan, planningOrder_eq, List.foldlM_append,
      show Ledger.empty = Ledger.ofClaims [] from rfl, hError]
    rfl

/-- Generating for no module at all succeeds exactly if the symbols of the
scaffold differ from each other. -/
theorem generate_nil_iff :
    (∃ sources, g.generate [] = .ok sources) ↔ g.reservedMembers.Nodup := by
  constructor
  · rintro ⟨sources, hOk⟩
    by_contra hReserved
    obtain ⟨symbol, -, hFails⟩ := generate_of_reserved_repeat hReserved
    rw [hFails []] at hOk
    cases hOk
  · intro hReserved
    rcases g.generate_cases [] with ⟨hOk, -⟩ | ⟨error, hError, -⟩
    · exact hOk
    · obtain ⟨symbol, first, second, rfl⟩ := duplicateSymbol_of_generate hError
      obtain ⟨m, hm, -⟩ := second_of_generate hReserved hError
      cases hm

end Generator

open Generator in
/-- Settings that give a generator are at fault for nothing but a repeated
symbol. Without modules there is none exactly when the members that the
settings reserve do not repeat. Then the second owner of a repeated symbol
is always a module; otherwise the scaffold is reported against itself,
whatever the modules are. -/
theorem generate_faults_of_valid_settings {s : Settings} {g : Generator}
    (h : ofSettings s = .ok g) :
    (∀ modules error, generate s modules = .error error →
      ∃ symbol first second, error = .duplicateSymbol symbol first second) ∧
    ((∃ sources, generate s [] = .ok sources) ↔ g.reservedMembers.Nodup) ∧
    (g.reservedMembers.Nodup → ∀ modules symbol first second,
      generate s modules = .error (.duplicateSymbol symbol first second) →
        ∃ m ∈ modules, second = m.path) ∧
    (¬g.reservedMembers.Nodup → ∃ symbol ∈ g.reservedMembers, ∀ modules,
      generate s modules = .error (.duplicateSymbol symbol scaffoldOwner scaffoldOwner)) := by
  have hGenerate (modules : List ScriptModule) : generate s modules = g.generate modules := by
    rw [generate, h, ok_bind]
  simp only [hGenerate]
  exact ⟨fun modules error => duplicateSymbol_of_generate, generate_nil_iff,
    fun hReserved modules symbol first second => second_of_generate hReserved,
    generate_of_reserved_repeat⟩

open Generator in
/-- The default settings reserve no member twice. -/
theorem generate_faults_default :
    ∃ g, ofSettings {} = .ok g ∧ g.reservedMembers.Nodup ∧
      (∃ sources, generate {} [] = .ok sources) ∧
      ∀ modules symbol first second,
        generate {} modules = .error (.duplicateSymbol symbol first second) →
          ∃ m ∈ modules, second = m.path := by
  have hReserved : (ofSettings {}).map (fun g => decide g.reservedMembers.Nodup) = .ok true := by
    decide +kernel
  obtain ⟨g, hg, hNodup⟩ := map_ok hReserved
  have hFaults := generate_faults_of_valid_settings hg
  have hNodup : g.reservedMembers.Nodup := of_decide_eq_true hNodup
  exact ⟨g, hg, hNodup, hFaults.2.1.mpr hNodup, hFaults.2.2.1 hNodup⟩

open Generator in
/-- Settings are accepted that give the method loading all modules the name
of a member of the scaffold, and nothing can be generated from them. -/
theorem generate_nil_not_ok :
    ∃ g, ofSettings { preloadAllName := "Dispose" } = .ok g ∧
      generate { preloadAllName := "Dispose" } [] =
        .error (.duplicateSymbol "Dispose" "runtime scaffold" "runtime scaffold") := by
  have hAccepted : (ofSettings { preloadAllName := "Dispose" }).map (fun _ => ()) = .ok () := by
    decide +kernel
  obtain ⟨g, hg, -⟩ := map_ok hAccepted
  exact ⟨g, hg, by decide +kernel⟩

end ScriptBindings
