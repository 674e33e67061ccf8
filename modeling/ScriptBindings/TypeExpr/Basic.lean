/-! Type expressions of declaration modules, and the one canonical text of
each. Unions and `keyof` are put in parentheses where they stand as an
operand. -/
namespace ScriptBindings

/-- The keyword types. -/
inductive Primitive where
  | string
  | number
  | boolean
  | bigint
  | void
  | undefined
  | null
  | any
  | unknown
  | never
  | object
  | symbol
  deriving DecidableEq, Repr

namespace Primitive

def keyword : Primitive → String
  | .string => "string"
  | .number => "number"
  | .boolean => "boolean"
  | .bigint => "bigint"
  | .void => "void"
  | .undefined => "undefined"
  | .null => "null"
  | .any => "any"
  | .unknown => "unknown"
  | .never => "never"
  | .object => "object"
  | .symbol => "symbol"

def all : List Primitive :=
  [.string, .number, .boolean, .bigint, .void, .undefined, .null, .any, .unknown, .never,
    .object, .symbol]

def ofKeyword? (text : String) : Option Primitive :=
  all.find? (·.keyword == text)

/-- `null` and `undefined` only mark a value as optional. -/
def isNullish : Primitive → Bool
  | .null | .undefined => true
  | _ => false

@[simp] theorem ofKeyword?_keyword (p : Primitive) : ofKeyword? p.keyword = some p := by
  cases p <;> decide

end Primitive

/-- A type expression. Whatever is neither a keyword type, a type parameter
nor one of the structural forms is a reference, kept as its normalised
text. -/
inductive TypeExpr where
  | primitive (keyword : Primitive)
  | arrayOf (element : TypeExpr)
  | unionOf (members : List TypeExpr)
  | promiseOf (result : TypeExpr)
  | keyOf (target : TypeExpr)
  | reference (text : String)
  | genericRef (name : String)
  deriving Repr, Inhabited

namespace TypeExpr

mutual

def decEq : (s t : TypeExpr) → Decidable (s = t)
  | .primitive p, .primitive q => decidable_of_iff (p = q) (by simp)
  | .arrayOf s, .arrayOf t => @decidable_of_iff _ (s = t) (by simp) (decEq s t)
  | .unionOf ss, .unionOf ts => @decidable_of_iff _ (ss = ts) (by simp) (decEqAll ss ts)
  | .promiseOf s, .promiseOf t => @decidable_of_iff _ (s = t) (by simp) (decEq s t)
  | .keyOf s, .keyOf t => @decidable_of_iff _ (s = t) (by simp) (decEq s t)
  | .reference a, .reference b => decidable_of_iff (a = b) (by simp)
  | .genericRef a, .genericRef b => decidable_of_iff (a = b) (by simp)
  | .primitive _, .arrayOf _ | .primitive _, .unionOf _ | .primitive _, .promiseOf _
  | .primitive _, .keyOf _ | .primitive _, .reference _ | .primitive _, .genericRef _
  | .arrayOf _, .primitive _ | .arrayOf _, .unionOf _ | .arrayOf _, .promiseOf _
  | .arrayOf _, .keyOf _ | .arrayOf _, .reference _ | .arrayOf _, .genericRef _
  | .unionOf _, .primitive _ | .unionOf _, .arrayOf _ | .unionOf _, .promiseOf _
  | .unionOf _, .keyOf _ | .unionOf _, .reference _ | .unionOf _, .genericRef _
  | .promiseOf _, .primitive _ | .promiseOf _, .arrayOf _ | .promiseOf _, .unionOf _
  | .promiseOf _, .keyOf _ | .promiseOf _, .reference _ | .promiseOf _, .genericRef _
  | .keyOf _, .primitive _ | .keyOf _, .arrayOf _ | .keyOf _, .unionOf _
  | .keyOf _, .promiseOf _ | .keyOf _, .reference _ | .keyOf _, .genericRef _
  | .reference _, .primitive _ | .reference _, .arrayOf _ | .reference _, .unionOf _
  | .reference _, .promiseOf _ | .reference _, .keyOf _ | .reference _, .genericRef _
  | .genericRef _, .primitive _ | .genericRef _, .arrayOf _ | .genericRef _, .unionOf _
  | .genericRef _, .promiseOf _ | .genericRef _, .keyOf _ | .genericRef _, .reference _ =>
      .isFalse (by simp)

def decEqAll : (ss ts : List TypeExpr) → Decidable (ss = ts)
  | [], [] => .isTrue rfl
  | [], _ :: _ => .isFalse (by simp)
  | _ :: _, [] => .isFalse (by simp)
  | s :: ss, t :: ts =>
      @decidable_of_iff _ (s = t ∧ ss = ts) (by simp)
        (@instDecidableAnd _ _ (decEq s t) (decEqAll ss ts))

end

instance : DecidableEq TypeExpr :=
  decEq

/-- Whether the canonical text needs parentheses as an operand. -/
def bindsLoosely : TypeExpr → Bool
  | .unionOf _ | .keyOf _ => true
  | _ => false

def parenthesise (loose : Bool) (text : String) : String :=
  if loose then "(" ++ text ++ ")" else text

mutual

/-- The canonical text, which is also the key of the override table. -/
def canonical : TypeExpr → String
  | .primitive p => p.keyword
  | .arrayOf element => parenthesise element.bindsLoosely element.canonical ++ "[]"
  | .unionOf members => " | ".intercalate (canonicalAll members)
  | .promiseOf result => "Promise<" ++ result.canonical ++ ">"
  | .keyOf target => "keyof " ++ parenthesise target.bindsLoosely target.canonical
  | .reference text => text
  | .genericRef name => name

def canonicalAll : List TypeExpr → List String
  | [] => []
  | t :: rest => t.canonical :: canonicalAll rest

end

def isNullish : TypeExpr → Bool
  | .primitive p => p.isNullish
  | _ => false

def isPromise : TypeExpr → Bool
  | .promiseOf _ => true
  | _ => false

/-- The type with one layer of `Promise` removed. -/
def awaited : TypeExpr → TypeExpr
  | .promiseOf result => result
  | t => t

/-- Induction over types, with one hypothesis for all members of a union. -/
@[elab_as_elim]
theorem induction {motive : TypeExpr → Prop} (primitive : ∀ p, motive (.primitive p))
    (arrayOf : ∀ element, motive element → motive (.arrayOf element))
    (unionOf : ∀ members, (∀ t ∈ members, motive t) → motive (.unionOf members))
    (promiseOf : ∀ result, motive result → motive (.promiseOf result))
    (keyOf : ∀ target, motive target → motive (.keyOf target))
    (reference : ∀ text, motive (.reference text))
    (genericRef : ∀ name, motive (.genericRef name)) (t : TypeExpr) : motive t :=
  @TypeExpr.rec motive (fun members => ∀ t ∈ members, motive t) primitive arrayOf unionOf
    promiseOf keyOf reference genericRef (List.forall_mem_nil motive)
    (fun _ _ hFirst hRest => List.forall_mem_cons.mpr ⟨hFirst, hRest⟩) t

theorem canonicalAll_eq_map (members : List TypeExpr) :
    canonicalAll members = members.map canonical := by
  induction members with
  | nil => rfl
  | cons t rest ih => simp [canonicalAll, ih]

end TypeExpr

end ScriptBindings
