import ScriptBindings.Proofs.TypeExpr.NormalForm

/-! Type parameters in the types that are read. A type refers to a type
parameter by a name that is in scope and that means no keyword type. -/
namespace ScriptBindings.TypeExpr

open Text

/-- The types that refer to these type parameters only, by names that mean
nothing else. -/
inductive Scoped (generics : List String) : TypeExpr → Prop where
  | primitive (p : Primitive) : Scoped generics (.primitive p)
  | reference (text : String) : Scoped generics (.reference text)
  | genericRef {name : String} (hName : isName name.toList = true)
      (hKeyword : Primitive.ofKeyword? name = none) (hScope : name ∈ generics) :
      Scoped generics (.genericRef name)
  | arrayOf {element : TypeExpr} (hElement : Scoped generics element) :
      Scoped generics (.arrayOf element)
  | promiseOf {result : TypeExpr} (hResult : Scoped generics result) :
      Scoped generics (.promiseOf result)
  | keyOf {target : TypeExpr} (hTarget : Scoped generics target) : Scoped generics (.keyOf target)
  | unionOf {members : List TypeExpr} (hMembers : ∀ t ∈ members, Scoped generics t) :
      Scoped generics (.unionOf members)

variable {generics : List String} {text : List Char} {t : TypeExpr}

/-- Types in normal form speak only of type parameters that are in scope. -/
theorem Normal.scoped (h : Normal generics t) : Scoped generics t := by
  induction h with
  | primitive p => exact .primitive p
  | genericRef hName hKeyword hScope => exact .genericRef hName hKeyword hScope
  | reference => exact .reference _
  | arrayOf _ ih => exact .arrayOf ih
  | promiseOf _ ih => exact .promiseOf ih
  | keyOf _ ih => exact .keyOf ih
  | unionOf _ _ _ ih => exact .unionOf ih

theorem Scoped.awaited (h : Scoped generics t) : Scoped generics t.awaited := by
  unfold TypeExpr.awaited
  split
  · cases h with
    | promiseOf hResult => exact hResult
  · exact h

end ScriptBindings.TypeExpr
