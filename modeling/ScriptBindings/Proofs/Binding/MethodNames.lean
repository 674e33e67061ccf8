import Mathlib.Algebra.Order.BigOperators.Group.List
import Mathlib.Algebra.Order.Group.Nat
import Mathlib.Data.List.Nodup
import ScriptBindings.Declaration.Reader
import ScriptBindings.Proofs.Binding.Methods
import ScriptBindings.Proofs.Name.Filling

/-! The names of the methods that bind one function. A pattern with the
action in it keeps the flavours apart. The ending for promises does not: it
is put behind those names only that do not have it yet, and may turn the
name of one flavour into that of another. -/
namespace ScriptBindings

open Outcomes

namespace NamePattern

variable {segments : List Segment} {fill other : Placeholder → List Char}

/-- What fills a placeholder that occurs has the same length in texts of the
same length. -/
theorem length_filledBy_lt {which : Placeholder} (hMem : .placeholder which ∈ segments)
    (hOthers : ∀ placeholder, placeholder ≠ which → fill placeholder = other placeholder)
    (hShorter : (fill which).length < (other which).length) :
    (segments.flatMap (Segment.filledBy fill)).length <
      (segments.flatMap (Segment.filledBy other)).length := by
  rw [List.length_flatMap, List.length_flatMap]
  refine List.sum_lt_sum _ _ (fun segment _ => ?_) ⟨_, hMem, hShorter⟩
  cases segment with
  | literal text => exact Nat.le_refl _
  | placeholder placeholder =>
      by_cases hSame : placeholder = which
      · exact hSame ▸ Nat.le_of_lt hShorter
      · rw [Segment.filledBy, Segment.filledBy, hOthers placeholder hSame]

/-- A text that is filled in differently at one placeholder only tells what
it was filled with, if the placeholder occurs in it. -/
theorem filledBy_injective {which : Placeholder} (hMem : .placeholder which ∈ segments)
    (hOthers : ∀ placeholder, placeholder ≠ which → fill placeholder = other placeholder)
    (h : segments.flatMap (Segment.filledBy fill) = segments.flatMap (Segment.filledBy other)) :
    fill which = other which := by
  have hWhole : (fill which).length = (other which).length := by
    rcases Nat.lt_trichotomy (fill which).length (other which).length with hLess | hSame | hMore
    · exact absurd (congrArg List.length h) (length_filledBy_lt hMem hOthers hLess).ne
    · exact hSame
    · have hOthers' := fun placeholder hOther => (hOthers placeholder hOther).symm
      exact absurd (congrArg List.length h) (length_filledBy_lt hMem hOthers' hMore).ne'
  induction segments with
  | nil => cases hMem
  | cons segment rest ih =>
      have hLength : (segment.filledBy fill).length = (segment.filledBy other).length := by
        cases segment with
        | literal text => rfl
        | placeholder placeholder =>
            by_cases hSame : placeholder = which
            · exact hSame ▸ hWhole
            · rw [Segment.filledBy, Segment.filledBy, hOthers placeholder hSame]
      obtain ⟨hFirst, hRest⟩ := List.append_inj h hLength
      rcases List.mem_cons.mp hMem with rfl | hMem
      · exact hFirst
      · exact ih hMem hRest

/-- A pattern with the action in it renders different actions
differently. -/
theorem applyChars_of_render {p : NamePattern} (hAction : p.usesAction = true)
    {name module function first second : String}
    (h : p.render ⟨name, module, function, first⟩ = p.render ⟨name, module, function, second⟩) :
    p.casing.apply first = p.casing.apply second := by
  have hText := congrArg String.toList h
  rw [toList_render, toList_render] at hText
  have hSame := filledBy_injective (List.contains_iff_mem.mp hAction) (fun placeholder hOther => ?_)
    hText
  · exact congrArg String.ofList hSame
  · cases placeholder with
    | action => exact absurd rfl hOther
    | name | module | function => rfl

end NamePattern

namespace Generator

variable {g : Generator} {m : ScriptModule} {f : Signature} {a b flavour : Flavour}

/-- The configured value of the action, in the casing of the methods. -/
def casedAction (g : Generator) (flavour : Flavour) : String :=
  g.names.method.casing.apply (flavour.actionName g.settings.invocation.actionNames)

/-- The name of a method by the pattern alone. -/
def patternName (g : Generator) (m : ScriptModule) (f : Signature) (flavour : Flavour) : String :=
  g.names.method.render
    ⟨f.name, m.name, f.name, flavour.actionName g.settings.invocation.actionNames⟩

/-- Whether names get the ending for promises, where they do not have it. -/
def takesEnding (g : Generator) (f : Signature) : Bool :=
  g.settings.invocation.promiseAppendAsync && f.isAsync

/-- The ending for promises turns the first name into the second. -/
structure EndingMeets (g : Generator) (m : ScriptModule) (f : Signature) (a b : Flavour) :
    Prop where
  taken : g.takesEnding f = true
  missing : endsWith "Async" (g.patternName m f a) = false
  meets : g.patternName m f a ++ "Async" = g.patternName m f b

/-- The claims that are made for the methods of one function. -/
def methodClaims (g : Generator) (m : ScriptModule) (f : Signature) : List Claim :=
  ((g.flavoursFor f).map (g.methodName m f)).map (.member · m.path)

/-- The ending is appended at the very end, and only to names that do not
have it, so that it never doubles. -/
theorem methodName_eq (m : ScriptModule) (f : Signature) (flavour : Flavour) :
    g.methodName m f flavour =
      if g.takesEnding f && !endsWith "Async" (g.patternName m f flavour) then
        g.patternName m f flavour ++ "Async"
      else g.patternName m f flavour :=
  rfl

/-- Two flavours whose patterns differ by the ending alone have one name
after it was appended. -/
theorem EndingMeets.methodName_eq (h : g.EndingMeets m f a b) :
    g.methodName m f a = g.methodName m f b := by
  have hEnds : endsWith "Async" (g.patternName m f b) = true := by
    rw [← h.meets, endsWith, List.isSuffixOf_iff_suffix, String.toList_append]
    exact List.suffix_append _ _
  rw [Generator.methodName_eq, Generator.methodName_eq, h.taken, h.missing, hEnds]
  exact h.meets

/-- Their patterns nevertheless tell them apart: it is the ending that
undoes what the action in the pattern did. -/
theorem EndingMeets.patternName_ne (h : g.EndingMeets m f a b) :
    g.patternName m f a ≠ g.patternName m f b := by
  intro hSame
  have hLength := congrArg String.length (hSame.trans h.meets.symm)
  simp at hLength

/-- Different names that become the same meet by the ending. -/
theorem endingMeets_of_methodName_eq (hNames : g.patternName m f a ≠ g.patternName m f b)
    (h : g.methodName m f a = g.methodName m f b) :
    g.EndingMeets m f a b ∨ g.EndingMeets m f b a := by
  rw [methodName_eq, methodName_eq] at h
  cases hTaken : g.takesEnding f with
  | false =>
      rw [hTaken] at h
      exact absurd h hNames
  | true =>
      rw [hTaken] at h
      cases hA : endsWith "Async" (g.patternName m f a) with
      | false =>
          cases hB : endsWith "Async" (g.patternName m f b) with
          | false =>
              rw [hA, hB] at h
              exact absurd ((String.append_left_inj "Async").mp h) hNames
          | true =>
              rw [hA, hB] at h
              exact Or.inl ⟨hTaken, hA, h⟩
      | true =>
          cases hB : endsWith "Async" (g.patternName m f b) with
          | false =>
              rw [hA, hB] at h
              exact Or.inr ⟨hTaken, hB, h.symm⟩
          | true =>
              rw [hA, hB] at h
              exact absurd h hNames

/-- Flavours whose actions differ have different names by the pattern. With
more than one flavour it has a placeholder for the action, as settings
without it are refused. -/
theorem nodup_patternName {s : Settings} (hg : ofSettings s = .ok g)
    (hActions : (g.flavours.map g.casedAction).Nodup) :
    ((g.flavoursFor f).map (g.patternName m f)).Nodup := by
  obtain ⟨-, -, -, -, hUses, -⟩ := ofSettings_ok hg
  unfold flavoursFor
  split
  · exact List.nodup_singleton _
  · cases hFlavours : g.flavours with
    | nil => exact List.nodup_nil
    | cons first rest =>
        cases rest with
        | nil => exact List.nodup_singleton _
        | cons second rest =>
            rw [hFlavours] at hUses hActions
            have hAction := hUses (by simp)
            refine List.Nodup.map_on (fun a ha b hb hSame => ?_) (List.Nodup.of_map _ hActions)
            exact List.inj_on_of_nodup_map hActions ha hb
              (NamePattern.applyChars_of_render hAction hSame)

/-- Names that the pattern keeps apart stay apart unless they meet by the
ending. -/
theorem nodup_methodName_iff (hNames : ((g.flavoursFor f).map (g.patternName m f)).Nodup) :
    ((g.flavoursFor f).map (g.methodName m f)).Nodup ↔
      ∀ a ∈ g.flavoursFor f, ∀ b ∈ g.flavoursFor f, ¬g.EndingMeets m f a b := by
  constructor
  · intro hNodup a ha b hb hMeets
    have hSame := List.inj_on_of_nodup_map hNodup ha hb hMeets.methodName_eq
    exact hMeets.patternName_ne (hSame ▸ rfl)
  · intro hApart
    refine List.Nodup.map_on (fun a ha b hb hSame => ?_) (List.Nodup.of_map _ hNames)
    by_contra hOther
    have hDiffers := mt (List.inj_on_of_nodup_map hNames ha hb) hOther
    rcases endingMeets_of_methodName_eq hDiffers hSame with hMeets | hMeets
    · exact hApart a ha b hb hMeets
    · exact hApart b hb a ha hMeets

/-- Valid settings with the names that their flavours give a function. -/
theorem exists_methodNames (s : Settings) (m : ScriptModule) (f : Signature)
    (actions names : List String)
    (h : ((ofSettings s).map fun g =>
      (g.flavours.map g.casedAction, (g.flavoursFor f).map (g.methodName m f))) =
        .ok (actions, names)) (hDistinct : actions.Nodup) :
    ∃ g, ofSettings s = .ok g ∧ (g.flavours.map g.casedAction).Nodup ∧
      (g.flavoursFor f).map (g.methodName m f) = names := by
  obtain ⟨g, hg, hNames⟩ := map_ok h
  obtain ⟨rfl, hMethods⟩ := Prod.mk.inj hNames
  exact ⟨g, hg, hDistinct, hMethods⟩

end Generator

/-- Where the actions of the enabled flavours differ in the casing of the
methods, the pattern gives the methods that bind one function different
names. They keep them, and no symbol is repeated by binding the function,
unless the ending for promises turns the name of one method into that of
another. -/
theorem methodNames_of_distinct_actions {s : Settings} {g : Generator}
    (hg : Generator.ofSettings s = .ok g) (hActions : (g.flavours.map g.casedAction).Nodup)
    (m : ScriptModule) (f : Signature) :
    ((g.flavoursFor f).map (g.patternName m f)).Nodup ∧
    (((g.flavoursFor f).map (g.methodName m f)).Nodup ↔
      ∀ a ∈ g.flavoursFor f, ∀ b ∈ g.flavoursFor f, ¬g.EndingMeets m f a b) ∧
    ((∃ ledger, (g.methodClaims m f).foldlM Ledger.record .empty = .ok ledger) ↔
      ∀ a ∈ g.flavoursFor f, ∀ b ∈ g.flavoursFor f, ¬g.EndingMeets m f a b) := by
  have hNames := Generator.nodup_patternName (m := m) (f := f) hg hActions
  have hMethods := Generator.nodup_methodName_iff hNames
  refine ⟨hNames, hMethods, ?_⟩
  rw [← hMethods, Ledger.exists_record_iff]
  exact Claim.distinct_members_iff

/-- A promise is bound with three flavours whose names begin with the
action. -/
theorem methodNames_of_distinct_actions_in_front :
    let s : Settings := {
      namePatterns := { method := ⟨"\x7baction\x7d\x7bfunction\x7d", .pascal⟩ }
      invocation := {
        syncEnabled := true, asyncEnabled := true, promiseOnlyAsync := false
        promiseAppendAsync := true } }
    let f : Signature := ⟨"load", [], [], .promiseOf (.primitive .string), none⟩
    let m : ScriptModule := .ofPath "m.d.ts" [f]
    ∃ g, Generator.ofSettings s = .ok g ∧ (g.flavours.map g.casedAction).Nodup ∧
      (g.flavoursFor f).map (g.methodName m f) =
        ["InvokeLoadAsync", "InvokeTrySyncLoadAsync", "InvokeAsyncLoadAsync"] ∧
      (∀ a ∈ g.flavoursFor f, ∀ b ∈ g.flavoursFor f, ¬g.EndingMeets m f a b) ∧
      ∃ ledger, (g.methodClaims m f).foldlM Ledger.record .empty = .ok ledger := by
  intro s f m
  obtain ⟨g, hg, hDistinct, hMethods⟩ := Generator.exists_methodNames s m f
    ["Invoke", "InvokeTrySync", "InvokeAsync"]
    ["InvokeLoadAsync", "InvokeTrySyncLoadAsync", "InvokeAsyncLoadAsync"]
    (by decide +kernel) (by decide)
  obtain ⟨-, hApart, hRecord⟩ := methodNames_of_distinct_actions hg hDistinct m f
  have hNone := hApart.mp (by rw [hMethods]; decide)
  exact ⟨g, hg, hDistinct, hMethods, hNone, hRecord.mpr hNone⟩

/-- With the action behind the function, the ending turns the name of the
synchronous method into that of the asynchronous one, and nothing is
generated. -/
theorem methodNames_meet :
    let s : Settings := {
      namePatterns := { method := ⟨"\x7bfunction\x7d\x7baction\x7d", .pascal⟩ }
      invocation := {
        syncEnabled := true, asyncEnabled := true, promiseOnlyAsync := false
        promiseAppendAsync := true } }
    let f : Signature := ⟨"load", [], [], .promiseOf (.primitive .string), none⟩
    let m : ScriptModule := .ofPath "m.d.ts" [f]
    (readModule "m.d.ts" "export function load(): Promise<string>;").module? = some m ∧
      ∃ g, Generator.ofSettings s = .ok g ∧ (g.flavours.map g.casedAction).Nodup ∧
        (g.flavoursFor f).map (g.methodName m f) =
          ["LoadInvokeAsync", "LoadInvokeTrySyncAsync", "LoadInvokeAsync"] ∧
        generate s [m] = .error (.duplicateSymbol "LoadInvokeAsync" "m.d.ts" "m.d.ts") := by
  intro s f m
  obtain ⟨g, hg, hDistinct, hMethods⟩ := Generator.exists_methodNames s m f
    ["Invoke", "InvokeTrySync", "InvokeAsync"]
    ["LoadInvokeAsync", "LoadInvokeTrySyncAsync", "LoadInvokeAsync"]
    (by decide +kernel) (by decide)
  exact ⟨by decide +kernel, g, hg, hDistinct, hMethods, by decide +kernel⟩

end ScriptBindings
