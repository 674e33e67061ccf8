import Mathlib.Data.List.Induction
import ScriptBindings.Binding.Sources
import ScriptBindings.Proofs.Outcomes

/-! When sources are generated. Nothing but a repeated symbol stops a
generator, and what it reports is the first repetition in the order in which
the symbols are claimed, with the owner that claimed the symbol first. -/
namespace ScriptBindings

open Outcomes

/-! ### Names of one scope -/

/-- A search without a find has compared all names with each other and with
those seen before. -/
theorem firstRepeated?_none {seen names : List String} (h : firstRepeated? seen names = none) :
    names.Nodup ∧ ∀ name ∈ names, name ∉ seen := by
  induction names generalizing seen with
  | nil => exact ⟨List.nodup_nil, by simp⟩
  | cons name rest ih =>
      unfold firstRepeated? at h
      split at h
      · cases h
      · next hNew =>
          obtain ⟨hNodup, hFresh⟩ := ih h
          have hName : name ∉ seen := by simpa using hNew
          refine ⟨List.nodup_cons.mpr ⟨fun hMem => hFresh name hMem List.mem_cons_self, hNodup⟩, ?_⟩
          intro other hOther
          rcases List.mem_cons.mp hOther with rfl | hRest
          · exact hName
          · exact fun hSeen => hFresh other hRest (List.mem_cons_of_mem _ hSeen)

/-- The names before the reported one are distinct and do not repeat
`seen`. -/
theorem firstRepeated?_some {seen names : List String} {name : String}
    (h : firstRepeated? seen names = some name) :
    ∃ front back, names = front ++ name :: back ∧ front.Nodup ∧ (∀ n ∈ front, n ∉ seen) ∧
      (name ∈ front ∨ name ∈ seen) := by
  induction names generalizing seen with
  | nil => cases h
  | cons first rest ih =>
      unfold firstRepeated? at h
      split at h
      · next hOld =>
          cases h
          exact ⟨[], rest, rfl, List.nodup_nil, by simp, Or.inr (by simpa using hOld)⟩
      · next hNew =>
          obtain ⟨front, back, rfl, hNodup, hFresh, hName⟩ := ih h
          have hFirst : first ∉ front := fun hMem => hFresh first hMem List.mem_cons_self
          refine ⟨first :: front, back, rfl, List.nodup_cons.mpr ⟨hFirst, hNodup⟩, ?_, ?_⟩
          · intro n hn
            rcases List.mem_cons.mp hn with rfl | hRest
            · simpa using hNew
            · exact fun hSeen => hFresh n hRest (List.mem_cons_of_mem _ hSeen)
          · rcases hName with hFront | hSeen
            · exact Or.inl (List.mem_cons_of_mem _ hFront)
            · rcases List.mem_cons.mp hSeen with rfl | hOld
              · exact Or.inl List.mem_cons_self
              · exact Or.inr hOld

/-! ### Claims in order -/

namespace Claim

def member? : Claim → Option (String × String)
  | .member symbol owner => some (symbol, owner)
  | _ => none

def fragment? : Claim → Option (String × String)
  | .fragment symbol owner => some (symbol, owner)
  | _ => none

/-- The claimed members with their owners. -/
def memberEntries (claims : List Claim) : List (String × String) :=
  claims.filterMap member?

def fragmentEntries (claims : List Claim) : List (String × String) :=
  claims.filterMap fragment?

/-- No symbol is claimed twice in one space, and no method repeats a
parameter. -/
structure Distinct (claims : List Claim) : Prop where
  members : ((memberEntries claims).map (·.1)).Nodup
  fragments : ((fragmentEntries claims).map (·.1)).Nodup
  parameters : ∀ method names owner, .parameters method names owner ∈ claims → names.Nodup

/-- A claim that repeats a symbol of the claims before it, and what is
reported: the owner is the first of the symbol. A parameter is repeated
within its claim. -/
inductive Collides (earlier : List Claim) : Claim → GenerationError → Prop where
  | member {symbol first owner : String}
      (hFirst : (memberEntries earlier).lookup symbol = some first) :
      Collides earlier (.member symbol owner) (.duplicateSymbol symbol first owner)
  | fragment {symbol first owner : String}
      (hFirst : (fragmentEntries earlier).lookup symbol = some first) :
      Collides earlier (.fragment symbol owner) (.duplicateSymbol symbol first owner)
  | parameter {method name owner : String} {front back : List String} (hFront : front.Nodup)
      (hRepeated : name ∈ front) :
      Collides earlier (.parameters method (front ++ name :: back) owner)
        (.duplicateSymbol (method ++ "(" ++ name ++ ")") owner owner)

/-- The first collision among the claims: those before it are distinct. -/
def FirstCollision (claims : List Claim) (error : GenerationError) : Prop :=
  ∃ earlier claim later, claims = earlier ++ claim :: later ∧ Distinct earlier ∧
    Collides earlier claim error

variable {earlier later : List Claim} {claim : Claim} {error : GenerationError}
  {entries : List (String × String)} {symbol owner : String}

/-- The members that a list of claims enters are entered claim by claim. -/
@[simp] theorem memberEntries_append :
    memberEntries (earlier ++ later) = memberEntries earlier ++ memberEntries later :=
  List.filterMap_append

@[simp] theorem fragmentEntries_append :
    fragmentEntries (earlier ++ later) = fragmentEntries earlier ++ fragmentEntries later :=
  List.filterMap_append

theorem distinct_nil : Distinct [] :=
  ⟨List.nodup_nil, List.nodup_nil, by simp⟩

/-- Claims that do not collide have no collision among those made first,
where a run of the ledger stands after them. -/
theorem Distinct.of_append (h : Distinct (earlier ++ later)) : Distinct earlier where
  members := by
    have hAll := h.members
    rw [memberEntries_append, List.map_append] at hAll
    exact (List.nodup_append.mp hAll).1
  fragments := by
    have hAll := h.fragments
    rw [fragmentEntries_append, List.map_append] at hAll
    exact (List.nodup_append.mp hAll).1
  parameters := fun method names owner hMem =>
    h.parameters method names owner (List.mem_append_left later hMem)

/-- A symbol is free exactly if it is the key of no entry, which is what the
ledger looks up. -/
theorem lookup_eq_none_iff : entries.lookup symbol = none ↔ symbol ∉ entries.map (·.1) := by
  rw [List.lookup_eq_none_iff, List.mem_map, not_exists]
  constructor
  · rintro h entry ⟨hEntry, rfl⟩
    simpa using h entry hEntry
  · intro h entry hEntry
    simpa using fun hSame : symbol = entry.1 => h entry ⟨hEntry, hSame.symm⟩

/-- A new entry repeats nothing exactly when its symbol has no owner yet. -/
theorem nodup_concat_iff :
    ((entries ++ [(symbol, owner)]).map (·.1)).Nodup ↔
      (entries.map (·.1)).Nodup ∧ entries.lookup symbol = none := by
  rw [lookup_eq_none_iff, List.map_append, List.nodup_append]
  constructor
  · rintro ⟨hNodup, -, hDiffers⟩
    exact ⟨hNodup, fun hMem => hDiffers symbol hMem symbol List.mem_cons_self rfl⟩
  · rintro ⟨hNodup, hNew⟩
    refine ⟨hNodup, by simp, fun key hKey other hOther => ?_⟩
    rintro rfl
    rw [List.mem_singleton.mp hOther] at hKey
    exact hNew hKey

/-- Claims stay distinct with one more exactly when it collides with
none. -/
theorem distinct_concat_iff :
    Distinct (earlier ++ [claim]) ↔ Distinct earlier ∧ ∀ error, ¬Collides earlier claim error := by
  have hParameters (h : Distinct earlier)
      (hClaim : ∀ method names owner, claim = .parameters method names owner → names.Nodup) :
      ∀ method names owner, .parameters method names owner ∈ earlier ++ [claim] → names.Nodup := by
    intro method names owner hMem
    rcases List.mem_append.mp hMem with hEarlier | hLast
    · exact h.parameters method names owner hEarlier
    · exact hClaim method names owner (List.mem_singleton.mp hLast).symm
  constructor
  · refine fun h => ⟨h.of_append, fun error hCollides => ?_⟩
    cases hCollides with
    | member hFirst =>
        have hNone := (nodup_concat_iff.mp (memberEntries_append ▸ h.members)).2
        rw [hFirst] at hNone
        cases hNone
    | fragment hFirst =>
        have hNone := (nodup_concat_iff.mp (fragmentEntries_append ▸ h.fragments)).2
        rw [hFirst] at hNone
        cases hNone
    | parameter hFront hRepeated =>
        have hNodup := h.parameters _ _ _ (List.mem_append_right earlier List.mem_cons_self)
        exact (List.nodup_append.mp hNodup).2.2 _ hRepeated _ List.mem_cons_self rfl
  · rintro ⟨h, hNone⟩
    cases claim with
    | member symbol owner =>
        have hNew : (memberEntries earlier).lookup symbol = none :=
          Option.eq_none_iff_forall_ne_some.mpr fun first hFirst => hNone _ (.member hFirst)
        refine ⟨?_, ?_, hParameters h (by simp)⟩
        · rw [memberEntries_append]
          exact nodup_concat_iff.mpr ⟨h.members, hNew⟩
        · rw [fragmentEntries_append, show fragmentEntries [_] = [] from rfl, List.append_nil]
          exact h.fragments
    | fragment symbol owner =>
        have hNew : (fragmentEntries earlier).lookup symbol = none :=
          Option.eq_none_iff_forall_ne_some.mpr fun first hFirst => hNone _ (.fragment hFirst)
        refine ⟨?_, ?_, hParameters h (by simp)⟩
        · rw [memberEntries_append, show memberEntries [_] = [] from rfl, List.append_nil]
          exact h.members
        · rw [fragmentEntries_append]
          exact nodup_concat_iff.mpr ⟨h.fragments, hNew⟩
    | parameters method names owner =>
        refine ⟨?_, ?_, hParameters h ?_⟩
        · rw [memberEntries_append, show memberEntries [_] = [] from rfl, List.append_nil]
          exact h.members
        · rw [fragmentEntries_append, show fragmentEntries [_] = [] from rfl, List.append_nil]
          exact h.fragments
        · rintro _ _ _ hSame
          cases hSame
          cases hFound : firstRepeated? [] names with
          | none => exact (firstRepeated?_none hFound).1
          | some name =>
              obtain ⟨front, back, rfl, hFront, -, hName⟩ := firstRepeated?_some hFound
              rcases hName with hRepeated | hSeen
              · exact absurd (.parameter hFront hRepeated) (hNone _)
              · cases hSeen

/-- The members of the scaffold are all entered for one owner. -/
theorem memberEntries_members (symbols : List String) (owner : String) :
    memberEntries (symbols.map (.member · owner)) = symbols.map (·, owner) := by
  simp [memberEntries, member?, List.filterMap_map, Function.comp_def]

/-- Members that one owner claims are distinct when none is named twice. The
owner does not matter to this. -/
theorem distinct_members_iff {symbols : List String} :
    Distinct (symbols.map (.member · owner)) ↔ symbols.Nodup := by
  have hSymbols : (memberEntries (symbols.map (.member · owner))).map (·.1) = symbols := by
    rw [memberEntries_members, List.map_map]
    exact List.map_id _
  constructor
  · exact fun h => hSymbols ▸ h.members
  · intro h
    refine ⟨hSymbols.symm ▸ h, ?_, fun method names owner hMem => ?_⟩
    · simp [fragmentEntries, fragment?, List.filterMap_map, Function.comp_def]
    · obtain ⟨symbol, -, hSymbol⟩ := List.mem_map.mp hMem
      cases hSymbol

/-- A collision is reported only for claims that do collide. -/
theorem FirstCollision.not_distinct {claims : List Claim} (h : FirstCollision claims error) :
    ¬Distinct claims := by
  obtain ⟨earlier, claim, later, rfl, -, hCollides⟩ := h
  intro hDistinct
  rw [← List.singleton_append, ← List.append_assoc] at hDistinct
  exact (distinct_concat_iff.mp hDistinct.of_append).2 error hCollides

end Claim

/-! ### The ledger after a run of claims -/

namespace Ledger

open Claim

variable {earlier later : List Claim} {claim : Claim}

/-- The ledger in which these claims are entered. -/
def ofClaims (claims : List Claim) : Ledger :=
  ⟨(memberEntries claims).reverse, (fragmentEntries claims).reverse⟩

/-- Where no symbol has two owners, the last one entered is the first. -/
theorem lookup_reverse {entries : List (String × String)} (h : (entries.map (·.1)).Nodup)
    (symbol : String) : entries.reverse.lookup symbol = entries.lookup symbol := by
  induction entries with
  | nil => rfl
  | cons entry rest ih =>
      rw [List.map_cons, List.nodup_cons] at h
      rw [List.reverse_cons, List.lookup_append, ih h.2, List.lookup_singleton]
      by_cases hKey : symbol = entry.1
      · subst hKey
        rw [lookup_eq_none_iff.mpr h.1, Option.none_or, if_pos BEq.rfl, List.lookup_cons_self]
      · have hDiffers : (symbol == entry.1) = false := beq_eq_false_iff_ne.mpr hKey
        rw [hDiffers, if_neg Bool.false_ne_true, Option.or_none, List.lookup_cons, hDiffers]

/-- A claim is entered behind distinct ones, or it collides with them. -/
theorem record_ofClaims (h : Distinct earlier) :
    (ofClaims earlier).record claim = .ok (ofClaims (earlier ++ [claim])) ∧
      (∀ error, ¬Collides earlier claim error) ∨
    ∃ error, (ofClaims earlier).record claim = .error error ∧ Collides earlier claim error := by
  cases claim with
  | member symbol owner =>
      have hLookup := lookup_reverse h.members symbol
      cases hFirst : (memberEntries earlier).lookup symbol with
      | some first =>
          refine Or.inr ⟨_, ?_, .member hFirst⟩
          simp only [record, ofClaims, hLookup, hFirst]
      | none =>
          refine Or.inl ⟨?_, fun error hCollides => ?_⟩
          · simp only [record, ofClaims, hLookup, hFirst]
            simp [memberEntries, fragmentEntries, member?, fragment?]
          · cases hCollides with
            | member hOther => simp [hFirst] at hOther
  | fragment symbol owner =>
      have hLookup := lookup_reverse h.fragments symbol
      cases hFirst : (fragmentEntries earlier).lookup symbol with
      | some first =>
          refine Or.inr ⟨_, ?_, .fragment hFirst⟩
          simp only [record, ofClaims, hLookup, hFirst]
      | none =>
          refine Or.inl ⟨?_, fun error hCollides => ?_⟩
          · simp only [record, ofClaims, hLookup, hFirst]
            simp [memberEntries, fragmentEntries, member?, fragment?]
          · cases hCollides with
            | fragment hOther => simp [hFirst] at hOther
  | parameters method names owner =>
      cases hFound : firstRepeated? [] names with
      | some name =>
          obtain ⟨front, back, rfl, hFront, -, hName⟩ := firstRepeated?_some hFound
          rcases hName with hRepeated | hSeen
          · refine Or.inr ⟨_, ?_, .parameter hFront hRepeated⟩
            simp only [record, hFound]
          · cases hSeen
      | none =>
          refine Or.inl ⟨?_, fun error hCollides => ?_⟩
          · simp only [record, hFound]
            simp [ofClaims, memberEntries, fragmentEntries, member?, fragment?]
          · cases hCollides with
            | parameter hFront hRepeated =>
                have hNodup := (firstRepeated?_none hFound).1
                exact (List.nodup_append.mp hNodup).2.2 _ hRepeated _ List.mem_cons_self rfl

/-- A run of claims is entered as a whole, or its first collision is
reported. -/
theorem foldlM_record (h : Distinct earlier) :
    (later.foldlM record (ofClaims earlier) = .ok (ofClaims (earlier ++ later)) ∧
      Distinct (earlier ++ later)) ∨
    ∃ error, later.foldlM record (ofClaims earlier) = .error error ∧
      FirstCollision (earlier ++ later) error := by
  induction later generalizing earlier with
  | nil =>
      rw [List.append_nil]
      exact Or.inl ⟨rfl, h⟩
  | cons claim rest ih =>
      rcases @record_ofClaims earlier claim h with ⟨hRecord, hNone⟩ | ⟨error, hRecord, hCollides⟩
      · have hSplit : earlier ++ claim :: rest = earlier ++ [claim] ++ rest := by simp
        rw [List.foldlM_cons, hRecord, ok_bind, hSplit]
        exact ih (distinct_concat_iff.mpr ⟨h, hNone⟩)
      · refine Or.inr ⟨error, ?_, earlier, claim, rest, rfl, h, hCollides⟩
        rw [List.foldlM_cons, hRecord, error_bind]

/-- Claims can be entered on their own when they are distinct. This is the
case of an empty ledger, from which every generation starts. -/
theorem exists_record_iff {claims : List Claim} :
    (∃ ledger, claims.foldlM record empty = .ok ledger) ↔ Distinct claims := by
  have hRun := @foldlM_record [] claims distinct_nil
  rw [List.nil_append] at hRun
  rcases hRun with ⟨hOk, hDistinct⟩ | ⟨error, hError, hCollision⟩
  · exact iff_of_true ⟨_, hOk⟩ hDistinct
  · refine iff_of_false ?_ hCollision.not_distinct
    rintro ⟨ledger, hLedger⟩
    cases hError.symm.trans hLedger

end Ledger

/-! ### The names that a generator gives -/

namespace Generator

open Claim

/-- The members of the runtime class: those of the scaffold, and for each
module its preload and a method for each function and flavour. -/
def memberNames (g : Generator) (modules : List ScriptModule) : List String :=
  g.reservedMembers ++ modules.flatMap fun m =>
    g.preloadName m :: m.functions.flatMap fun f => (g.flavoursFor f).map (g.methodName m f)

def fragmentNames (g : Generator) (modules : List ScriptModule) : List String :=
  modules.map g.fragmentName

def parameterNames (g : Generator) (f : Signature) : List String :=
  f.parameters.map g.parameterName

/-- The names claimed for the modules, in the order in which they are
planned: the parameters of a method come just before the method. -/
def planningOrder (g : Generator) (modules : List ScriptModule) : List Claim :=
  g.reservedMembers.map (.member · scaffoldOwner) ++ modules.flatMap fun m =>
    .fragment (g.fragmentName m) m.path :: .member (g.preloadName m) m.path ::
      m.functions.flatMap fun f => (g.flavoursFor f).flatMap fun flavour =>
        [.parameters (g.methodName m f flavour) (g.parameterNames f) m.path,
          .member (g.methodName m f flavour) m.path]

variable (g : Generator) (modules : List ScriptModule)

/-- Each parameter of a function keeps its place, and its name is rendered
from the declared one alone. -/
theorem names_hostParameters (parameters : List Parameter) :
    (g.hostParameters parameters).map (·.name) = parameters.map g.parameterName := by
  induction parameters with
  | nil => rfl
  | cons p rest ih => simp [hostParameters, ih]

/-- For a module the file and the preload are claimed first, then for each
method its parameters and its name. -/
theorem claims_planModule (m : ScriptModule) :
    (g.planModule m).claims =
      .fragment (g.fragmentName m) m.path :: .member (g.preloadName m) m.path ::
        m.functions.flatMap fun f => (g.flavoursFor f).flatMap fun flavour =>
          [.parameters (g.methodName m f flavour) (g.parameterNames f) m.path,
            .member (g.methodName m f flavour) m.path] := by
  simp only [ModulePlan.claims, planModule, List.flatMap_assoc, List.flatMap_map, method,
    names_hostParameters, parameterNames, List.cons_append, List.nil_append]

/-- The claims of a plan are made in the planning order: the scaffold, then
module by module. -/
theorem claims_plan : g.claims (g.plan modules) = g.planningOrder modules := by
  simp only [claims, plan, planningOrder, List.flatMap_map, claims_planModule]

/-- The member symbols in planning order, which have to be distinct for a
plan to be carried out. -/
theorem members_planningOrder :
    (memberEntries (g.planningOrder modules)).map (·.1) = g.memberNames modules := by
  simp [memberEntries, planningOrder, memberNames, member?, List.filterMap_flatMap,
    List.filterMap_map, List.filterMap_cons, List.map_flatMap, Function.comp_def,
    ← List.map_eq_flatMap]

/-- The file symbols in planning order. Those of the class and of the
interface are not among them. -/
theorem fragments_planningOrder :
    (fragmentEntries (g.planningOrder modules)).map (·.1) = g.fragmentNames modules := by
  have hNone {α β γ : Type} (flavours : α → List β) (functions : List α) :
      (functions.flatMap fun f => (flavours f).flatMap fun _ => ([] : List γ)) = [] := by
    simp [List.flatMap_eq_nil_iff]
  simp [fragmentEntries, planningOrder, fragmentNames, fragment?, List.filterMap_flatMap,
    List.filterMap_map, List.filterMap_cons, Function.comp_def, hNone,
    ← List.map_eq_flatMap]

/-- No member, no file and no parameter of a function is named twice. -/
structure DistinctNames : Prop where
  members : (g.memberNames modules).Nodup
  fragments : (g.fragmentNames modules).Nodup
  parameters : ∀ m ∈ modules, ∀ f ∈ m.functions, (g.parameterNames f).Nodup

/-- All that settings must meet to give a generator, and what it is then
made of. -/
theorem ofSettings_ok {g : Generator} {s : Settings} (h : ofSettings s = .ok g) :
    g.settings = s ∧ s.namePatterns.compile = .ok g.names ∧
      g.flavours = Flavour.all.filter (·.isEnabled s.invocation) ∧ g.flavours ≠ [] ∧
      (1 < g.flavours.length → g.names.method.usesAction = true) ∧
      isHostIdentifier s.preloadAllName.toList = true := by
  unfold ofSettings at h
  obtain ⟨names, hNames, h⟩ := bind_ok h
  dsimp only at h
  split at h
  · cases h
  · next hSome =>
      split at h
      · cases h
      · next hAction =>
          split at h
          · cases h
          · next hIdentifier =>
              cases h
              refine ⟨rfl, hNames, rfl, by simpa using hSome, ?_, by simpa using hIdentifier⟩
              intro hSeveral
              simpa [hSeveral] using hAction

/-- Settings that enable no flavour are refused, so that no function is
without a method. -/
theorem flavours_ne_nil {s : Settings} (h : ofSettings s = .ok g) : g.flavours ≠ [] :=
  (ofSettings_ok h).2.2.2.1

/-- Every function is bound at least once, as a promise asynchronously if
not otherwise. -/
theorem flavoursFor_ne_nil {g : Generator} (h : g.flavours ≠ []) (f : Signature) :
    g.flavoursFor f ≠ [] := by
  unfold flavoursFor
  split
  · simp
  · exact h

/-- The parameters that are checked are those of each method, under its own
name and the path of the module. -/
theorem parameters_mem_planningOrder_iff {method owner : String} {names : List String} :
    .parameters method names owner ∈ g.planningOrder modules ↔
      ∃ m ∈ modules, ∃ f ∈ m.functions, ∃ flavour ∈ g.flavoursFor f,
        method = g.methodName m f flavour ∧ names = g.parameterNames f ∧ owner = m.path := by
  simp [planningOrder]

/-- Every function is bound at least once, so that its parameters are
claimed. -/
theorem distinct_planningOrder_iff {g : Generator} (hFlavours : g.flavours ≠ []) :
    Distinct (g.planningOrder modules) ↔ g.DistinctNames modules := by
  constructor
  · intro h
    refine ⟨?_, ?_, fun m hm f hf => ?_⟩
    · rw [← members_planningOrder]
      exact h.members
    · rw [← fragments_planningOrder]
      exact h.fragments
    · obtain ⟨flavour, hFlavour⟩ := List.exists_mem_of_ne_nil _ (flavoursFor_ne_nil hFlavours f)
      exact h.parameters _ _ _ ((g.parameters_mem_planningOrder_iff modules).mpr
        ⟨m, hm, f, hf, flavour, hFlavour, rfl, rfl, rfl⟩)
  · intro h
    refine ⟨?_, ?_, fun method names owner hMem => ?_⟩
    · rw [members_planningOrder]
      exact h.members
    · rw [fragments_planningOrder]
      exact h.fragments
    · obtain ⟨m, hm, f, hf, flavour, -, -, rfl, -⟩ :=
        (g.parameters_mem_planningOrder_iff modules).mp hMem
      exact h.parameters m hm f hf

/-- A generator stops at the first collision among its names and at nothing
else. -/
theorem generate_cases :
    (∃ sources, g.generate modules = .ok sources) ∧ Distinct (g.planningOrder modules) ∨
    ∃ error, g.generate modules = .error error ∧
      FirstCollision (g.planningOrder modules) error := by
  have hRun := @Ledger.foldlM_record [] (g.planningOrder modules) distinct_nil
  rw [List.nil_append] at hRun
  rw [generate, checkClaims, claims_plan]
  rcases hRun with ⟨hOk, hDistinct⟩ | ⟨error, hError, hCollision⟩
  · left
    refine ⟨⟨g.emit (g.plan modules), ?_⟩, hDistinct⟩
    rw [show Ledger.empty = Ledger.ofClaims [] from rfl, hOk]
    rfl
  · right
    refine ⟨error, ?_, hCollision⟩
    rw [show Ledger.empty = Ledger.ofClaims [] from rfl, hError]
    rfl

/-- What is generated is the plan carried out, for valid settings and names
that do not repeat. -/
theorem generate_eq_ok_iff {s : Settings} {sources : GeneratedSources} :
    ScriptBindings.generate s modules = .ok sources ↔
      ∃ g, ofSettings s = .ok g ∧ g.DistinctNames modules ∧ g.emit (g.plan modules) = sources := by
  constructor
  · intro h
    obtain ⟨g, hg, h⟩ := bind_ok h
    refine ⟨g, hg, (distinct_planningOrder_iff modules (g.flavours_ne_nil hg)).mp ?_, ?_⟩
    · rcases g.generate_cases modules with ⟨-, hDistinct⟩ | ⟨error, hError, -⟩
      · exact hDistinct
      · rw [h] at hError
        cases hError
    · obtain ⟨-, -, hEmit⟩ := bind_ok h
      exact Except.ok.inj hEmit
  · rintro ⟨g, hg, hNames, rfl⟩
    rw [ScriptBindings.generate, hg, ok_bind]
    rcases g.generate_cases modules with ⟨⟨sources, hOk⟩, -⟩ | ⟨error, -, hCollision⟩
    · obtain ⟨-, -, hEmit⟩ := bind_ok hOk
      rw [hOk, Except.ok.inj hEmit]
    · have hDistinct := (distinct_planningOrder_iff modules (g.flavours_ne_nil hg)).mpr hNames
      exact absurd hDistinct hCollision.not_distinct

end Generator

end ScriptBindings
