import ScriptBindings.Proofs.HostType.Structure
import ScriptBindings.Text.Affix

/-! Host types that are arrays. Without overrides these are the host types
of arrays and of unions of an array with `null` or `undefined`; a fallback
or the name of a type parameter may be written like one as well. -/
namespace ScriptBindings

open Text TypeExpr

/-! ### Host types as texts -/

/-- A host type without the mark of nullable types. -/
def unmarked (host : String) : List Char :=
  (before? ['?'] host.toList).getD host.toList

/-- The element type of an array type, be it nullable or not. -/
def elementOf? (host : String) : Option String :=
  (before? "[]".toList (unmarked host)).map String.ofList

/-- An ending is not found on a text whose last character is another one. -/
theorem before?_concat_of_ne (key text : List Char) {a b : Char} (h : a ≠ b) :
    before? (key ++ [a]) (text ++ [b]) = none := by
  cases hBefore : before? (key ++ [a]) (text ++ [b]) with
  | none => rfl
  | some rest =>
      have hText := before?_eq_some_iff.mp hBefore
      rw [← List.append_assoc] at hText
      exact absurd (List.cons.inj (List.append_inj_right' hText rfl)).1.symm h

/-- A host type that is not nullable has no mark to be taken off. -/
theorem before?_mark_of_not_endsWith {host : String} (h : endsWith "?" host = false) :
    before? ['?'] host.toList = none := by
  cases hBefore : before? ['?'] host.toList with
  | none => rfl
  | some rest =>
      have hSuffix : "?".toList <:+ host.toList := ⟨rest, (before?_eq_some_iff.mp hBefore).symm⟩
      rw [endsWith, List.isSuffixOf_iff_suffix.mpr hSuffix] at h
      cases h

/-- Being nullable does not make an array another one. -/
theorem elementOf?_nullable (host : String) : elementOf? (nullable host) = elementOf? host := by
  unfold nullable
  split
  · rfl
  · next hPlain =>
      have hMarked : before? ['?'] (host ++ "?").toList = some host.toList := by
        rw [before?_eq_some_iff, String.toList_append]
        rfl
      rw [elementOf?, elementOf?, unmarked, unmarked, hMarked,
        before?_mark_of_not_endsWith (Bool.eq_false_iff.mpr hPlain)]
      rfl

/-- The element of an array is what its brackets stand behind. -/
theorem elementOf?_array (host : String) : elementOf? (host ++ "[]") = some host := by
  have hPlain : before? ['?'] (host ++ "[]").toList = none := by
    rw [String.toList_append, show "[]".toList = ['['] ++ [']'] from rfl, ← List.append_assoc]
    exact before?_concat_of_ne [] _ (by decide)
  have hArray : before? "[]".toList (host ++ "[]").toList = some host.toList := by
    rw [before?_eq_some_iff, String.toList_append]
  rw [elementOf?, unmarked, hPlain, Option.getD_none, hArray, Option.map_some, String.ofList_toList]

/-- A host type with arguments is no array. -/
theorem elementOf?_applied (front : String) : elementOf? (front ++ ">") = none := by
  have hPlain : before? ['?'] (front ++ ">").toList = none := by
    rw [String.toList_append]
    exact before?_concat_of_ne [] _ (by decide)
  have hArray : before? "[]".toList (front ++ ">").toList = none := by
    rw [String.toList_append]
    exact before?_concat_of_ne ['['] _ (by decide)
  rw [elementOf?, unmarked, hPlain, Option.getD_none, hArray, Option.map_none]

theorem elementOf?_taskOf (host : String) : elementOf? (TypeMap.taskOf host) = none := by
  unfold TypeMap.taskOf
  split
  · decide
  · exact elementOf?_applied _

/-! ### Host types by structure -/

namespace TypeMap

variable {m : TypeMap} {t : TypeExpr} {element : String}

/-- The types whose host type is an array, with the host type of the
elements. -/
inductive MapsToArray (m : TypeMap) : TypeExpr → String → Prop where
  | arrayOf (t : TypeExpr) : MapsToArray m (.arrayOf t) (m.host t)
  | unionOf {members : List TypeExpr} {t : TypeExpr} {element : String}
      (hSole : valued members = [t]) (hMember : MapsToArray m t element) :
      MapsToArray m (.unionOf members) element
  | fallback {t : TypeExpr} {element : String} (hFallback : t.FallsBack)
      (hElement : elementOf? m.fallback = some element) : MapsToArray m t element
  | genericRef {name element : String} (hElement : elementOf? name = some element) :
      MapsToArray m (.genericRef name) element

/-- No keyword type but `symbol` maps to an array. -/
theorem elementOf?_primitiveHost (m : TypeMap) {p : Primitive} (h : p ≠ .symbol) :
    elementOf? (m.primitiveHost p) = none := by
  cases p with
  | symbol => exact absurd rfl h
  | string | number | boolean | bigint | void | undefined | null | any | unknown | never | object =>
      rw [primitiveHost]
      decide

section Structural

variable (hEmpty : m.overrides = .empty)

include hEmpty

/-- A union with one member that carries a value is an array exactly if this
member is, because a nullable array is one too. -/
theorem host_unionOf_sole {members : List TypeExpr} (hSole : valued members = [t]) :
    elementOf? (m.host (.unionOf members)) = elementOf? (m.host t) := by
  rw [host_unionOf_of_sole (override?_of_empty hEmpty _) hSole, unionHost]
  split
  · rfl
  · exact elementOf?_nullable _

/-- The structure of a type decides whether its host type is an array. -/
theorem mapsToArray_iff : m.MapsToArray t element ↔ elementOf? (m.host t) = some element := by
  have hBare := override?_of_empty hEmpty
  constructor
  · intro h
    induction h with
    | arrayOf t => rw [host_arrayOf (hBare _), elementOf?_array]
    | unionOf hSole _ ih => rw [host_unionOf_sole hEmpty hSole, ih]
    | fallback hFallback hElement => rw [host_of_fallsBack (hBare _) hFallback, hElement]
    | genericRef hElement => rw [host, hElement]
  · intro h
    have hFallsBack {t : TypeExpr} (hFallback : t.FallsBack)
        (hHost : elementOf? (m.host t) = some element) : m.MapsToArray t element := by
      rw [host_of_fallsBack (hBare _) hFallback] at hHost
      exact .fallback hFallback hHost
    induction t using TypeExpr.induction with
    | primitive p =>
        by_cases hSymbol : p = .symbol
        · rw [hSymbol] at h ⊢
          exact hFallsBack .symbol h
        · rw [host_primitive (hBare _), elementOf?_primitiveHost m hSymbol] at h
          cases h
    | arrayOf t _ =>
        rw [host_arrayOf (hBare _), elementOf?_array, Option.some_inj] at h
        exact h ▸ .arrayOf t
    | unionOf members ih =>
        by_cases hSole : ∃ t, valued members = [t]
        · obtain ⟨t, hSole⟩ := hSole
          rw [host_unionOf_sole hEmpty hSole] at h
          exact .unionOf hSole (ih t (mem_of_valued hSole) h)
        · exact hFallsBack (.unionOf (not_exists.mp hSole)) h
    | promiseOf t _ =>
        rw [host_promiseOf (hBare _), elementOf?_taskOf] at h
        cases h
    | keyOf target _ =>
        by_cases hTarget : ∃ name, target = .genericRef name
        · obtain ⟨name, rfl⟩ := hTarget
          rw [host_keyOf (hBare _), keyOfHost, elementOf?_applied] at h
          cases h
        · exact hFallsBack (.keyOf (not_exists.mp hTarget)) h
    | reference text => exact hFallsBack (.reference text) h
    | genericRef name =>
        rw [host] at h
        exact .genericRef h

end Structural

end TypeMap

end ScriptBindings
