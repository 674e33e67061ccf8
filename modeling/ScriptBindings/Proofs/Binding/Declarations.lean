import Mathlib.Data.List.Forall2
import ScriptBindings.Binding.Method

/-! How the host language declares a method and calls a helper, described
apart from how the texts are put together. A declaration has the result, the
name, type parameters in angle brackets, parameters with their defaults and
the constraints, in this order. Every method has exactly one declaration,
and so has it one call. -/
namespace ScriptBindings

/-! ### Separated texts -/

namespace Text

/-- The items one behind another, with the separator between neighbours. -/
inductive Separated (separator : String) : List String → String → Prop where
  | none : Separated separator [] ""
  | one (item : String) : Separated separator [item] item
  | more (first : String) {next text : String} {rest : List String}
      (hRest : Separated separator (next :: rest) text) :
      Separated separator (first :: next :: rest) (first ++ separator ++ text)

variable {separator text : String} {items : List String}

/-- Every list of items has a separated text, along the cases of the
relation. -/
theorem separated_intercalate (separator : String) :
    ∀ items, Separated separator items (separator.intercalate items)
  | [] => .none
  | [item] => by
      rw [String.intercalate_singleton]
      exact .one item
  | first :: next :: rest => by
      rw [String.intercalate_cons_cons]
      exact .more first (separated_intercalate separator (next :: rest))

/-- There is only one text of given items, which is the joined one. -/
theorem separated_iff : Separated separator items text ↔ text = separator.intercalate items := by
  constructor
  · intro h
    induction h with
    | none => rfl
    | one item => rw [String.intercalate_singleton]
    | more first _ ih => rw [ih, String.intercalate_cons_cons]
  · rintro rfl
    exact separated_intercalate separator items

end Text

/-! ### Flavours -/

namespace Flavour

/-- The member of the runtime class that invokes functions with a
flavour. -/
inductive IsHelper : Flavour → String → Prop where
  | sync : IsHelper .sync "TSInvoke"
  | trySync : IsHelper .trySync "TSInvokeTrySync"
  | async : IsHelper .async "TSInvokeAsync"

/-- What is written for methods that need not be done at once, and only for
these. -/
inductive OnlyLater (flavour : Flavour) (text : String) : List String → Prop where
  | atOnce (hFlavour : flavour = .sync) : OnlyLater flavour text []
  | later (hFlavour : flavour ≠ .sync) : OnlyLater flavour text [text]

variable {flavour : Flavour} {text : String} {texts : List String}

theorem isCancellable_iff : flavour.isCancellable = true ↔ flavour ≠ .sync := by
  cases flavour <;> simp [isCancellable]

theorem not_isCancellable_iff : ¬flavour.isCancellable = true ↔ flavour = .sync := by
  rw [isCancellable_iff, not_not]

theorem isHelper_iff : flavour.IsHelper text ↔ text = flavour.helper := by
  constructor
  · rintro ⟨⟩ <;> rfl
  · rintro rfl
    cases flavour with
    | sync => exact .sync
    | trySync => exact .trySync
    | async => exact .async

/-- The list is empty for methods that are done at once and has the text for
all others. -/
theorem onlyLater_iff :
    flavour.OnlyLater text texts ↔ texts = if flavour.isCancellable then [text] else [] := by
  constructor
  · rintro (hFlavour | hFlavour)
    · rw [hFlavour]
      rfl
    · rw [if_pos (isCancellable_iff.mpr hFlavour)]
  · rintro rfl
    split
    · next hLater => exact .later (isCancellable_iff.mp hLater)
    · next hAtOnce => exact .atOnce (not_isCancellable_iff.mp hAtOnce)

end Flavour

/-! ### Declarations -/

namespace Method

/-- What a method returns: its result, or a task of it if that may come
later. A task of nothing has no type argument. -/
inductive IsReturnType (m : Method) : String → Prop where
  | result (hFlavour : m.flavour = .sync) : IsReturnType m m.result
  | task (hFlavour : m.flavour ≠ .sync) (hVoid : m.result = "void") : IsReturnType m "ValueTask"
  | taskOf (hFlavour : m.flavour ≠ .sync) (hValue : m.result ≠ "void") :
      IsReturnType m ("ValueTask<" ++ m.result ++ ">")

/-- The type parameters of a declaration. Without any it has no brackets for
them either. -/
inductive IsGenericClause : List String → String → Prop where
  | none : IsGenericClause [] ""
  | some {names : List String} {text : String} (hSome : names ≠ [])
      (hNames : Text.Separated ", " names text) : IsGenericClause names ("<" ++ text ++ ">")

/-- The constraints of a declaration, each in a clause of its own. -/
inductive AreWhereClauses : List (String × String) → String → Prop where
  | none : AreWhereClauses [] ""
  | clause (name constraint : String) {rest : List (String × String)} {text : String}
      (hRest : AreWhereClauses rest text) :
      AreWhereClauses ((name, constraint) :: rest)
        (" where " ++ name ++ " : " ++ constraint ++ text)

/-- A parameter of a declaration. -/
inductive IsParameter : HostParameter → String → Prop where
  | required (hostType name : String) : IsParameter ⟨hostType, name, false⟩ (hostType ++ " " ++ name)
  | optional (hostType name : String) :
      IsParameter ⟨hostType, name, true⟩ (hostType ++ " " ++ name ++ " = default")

/-- The declaration of a method. A cancellation token comes behind its other
parameters. -/
inductive IsDeclaration (m : Method) : String → Prop where
  | of {result generics parameters clauses : String} {declared token : List String}
      (hResult : m.IsReturnType result) (hGenerics : IsGenericClause m.generics generics)
      (hDeclared : List.Forall₂ IsParameter m.parameters declared)
      (hToken : m.flavour.OnlyLater ("CancellationToken " ++ m.token ++ " = default") token)
      (hParameters : Text.Separated ", " (declared ++ token) parameters)
      (hClauses : AreWhereClauses m.constraints clauses) :
      IsDeclaration m
        (result ++ " " ++ m.name ++ generics ++ "(" ++ parameters ++ ")" ++ clauses)

variable {m : Method} {text : String} {texts : List String}

/-- The return type is told by the flavour and by whether there is a result,
and it is one text in every case. -/
theorem isReturnType_iff : m.IsReturnType text ↔ text = m.returnType := by
  have hVoid : voidType = "void" := rfl
  constructor
  · rintro (hFlavour | ⟨hFlavour, hResult⟩ | ⟨hFlavour, hResult⟩)
    · rw [returnType, hFlavour]
      rfl
    · rw [returnType, if_pos (Flavour.isCancellable_iff.mpr hFlavour), hResult]
      rfl
    · rw [returnType, if_pos (Flavour.isCancellable_iff.mpr hFlavour), TypeMap.taskOf,
        if_neg (by simpa [hVoid] using hResult)]
  · rintro rfl
    rw [returnType]
    split
    · next hLater =>
        rw [Flavour.isCancellable_iff] at hLater
        rw [TypeMap.taskOf]
        split
        · next hResult => exact .task hLater (beq_iff_eq.mp hResult)
        · next hResult => exact .taskOf hLater fun hSame => hResult (beq_iff_eq.mpr hSame)
    · next hAtOnce => exact .result (Flavour.not_isCancellable_iff.mp hAtOnce)

/-- The clause is empty without type parameters, so that no brackets are
left over. -/
theorem isGenericClause_iff : IsGenericClause m.generics text ↔ text = m.genericClause := by
  unfold genericClause
  generalize m.generics = names
  constructor
  · rintro (_ | ⟨hSome, hNames⟩)
    · rfl
    · rw [if_neg (List.isEmpty_iff.not.mpr hSome), Text.separated_iff.mp hNames]
  · rintro rfl
    split
    · next hNone =>
        rw [List.isEmpty_iff.mp hNone]
        exact .none
    · next hSome =>
        exact .some (List.isEmpty_iff.not.mp hSome) (Text.separated_intercalate _ _)

theorem areWhereClauses_iff : AreWhereClauses m.constraints text ↔ text = m.whereClauses := by
  rw [whereClauses]
  induction m.constraints generalizing text with
  | nil =>
      constructor
      · rintro ⟨⟩
        rfl
      · rintro rfl
        exact .none
  | cons clause rest ih =>
      rw [List.map_cons, String.join_cons]
      constructor
      · rintro (_ | ⟨name, constraint, hRest⟩)
        rw [ih.mp hRest]
      · rintro rfl
        exact .clause clause.1 clause.2 (ih.mpr rfl)

/-- A parameter with a default ends with it, one without ends with its
name. -/
theorem isParameter_iff {p : HostParameter} : IsParameter p text ↔ text = parameterText p := by
  obtain ⟨hostType, name, hasDefault⟩ := p
  constructor
  · rintro (_ | _)
    · exact String.append_empty.symm
    · rfl
  · rintro rfl
    cases hasDefault with
    | false =>
        rw [parameterText, if_neg Bool.false_ne_true, String.append_empty]
        exact .required hostType name
    | true => exact .optional hostType name

/-- What holds of each parameter holds of the list: there is one text for
each, in the same order. -/
theorem forall₂_isParameter_iff {parameters : List HostParameter} :
    List.Forall₂ IsParameter parameters texts ↔ texts = parameters.map parameterText := by
  rw [eq_comm, ← List.forall₂_eq_eq_eq, List.forall₂_map_left_iff]
  exact ⟨.imp fun _ _ h => (isParameter_iff.mp h).symm, .imp fun _ _ h => isParameter_iff.mpr h.symm⟩

/-- A method is declared by the text of its declaration, and by no other
text. -/
theorem isDeclaration_iff : m.IsDeclaration text ↔ text = m.declaration := by
  constructor
  · rintro ⟨hResult, hGenerics, hDeclared, hToken, hParameters, hClauses⟩
    rw [isReturnType_iff.mp hResult, isGenericClause_iff.mp hGenerics,
      Text.separated_iff.mp hParameters, forall₂_isParameter_iff.mp hDeclared,
      Flavour.onlyLater_iff.mp hToken, areWhereClauses_iff.mp hClauses]
    rfl
  · rintro rfl
    exact .of (isReturnType_iff.mpr rfl) (isGenericClause_iff.mpr rfl)
      (forall₂_isParameter_iff.mpr rfl) (Flavour.onlyLater_iff.mpr rfl)
      (Text.separated_intercalate _ _) (areWhereClauses_iff.mpr rfl)

/-- What stands in the parentheses of a declaration is the list of its
parameter texts. -/
theorem IsDeclaration.parameters (h : m.IsDeclaration text) :
    ∃ front list back, text = front ++ "(" ++ list ++ ")" ++ back ∧
      Text.Separated ", " m.parameterTexts list := by
  obtain ⟨-, -, hDeclared, hToken, hParameters, -⟩ := h
  rw [forall₂_isParameter_iff.mp hDeclared, Flavour.onlyLater_iff.mp hToken] at hParameters
  exact ⟨_, _, _, rfl, hParameters⟩

/-! ### Calls -/

/-- The type argument of a helper. There is one for nothing too. -/
inductive IsHelperResult (m : Method) : String → Prop where
  | nothing (hVoid : m.result = "void") : IsHelperResult m "IJSVoidResult"
  | value (hValue : m.result ≠ "void") : IsHelperResult m m.result

/-- The call of a helper: what is invoked of which module, the token that
may cancel it, and the parameters of the method. -/
inductive IsCall (m : Method) (url function : String) : String → Prop where
  | of {helper result arguments : String} {token : List String}
      (hHelper : m.flavour.IsHelper helper) (hResult : m.IsHelperResult result)
      (hToken : m.flavour.OnlyLater m.token token)
      (hArguments : Text.Separated ", "
        (["\"" ++ url ++ "\"", "\"" ++ function ++ "\""] ++ token ++ m.parameters.map (·.name))
        arguments) :
      IsCall m url function (helper ++ "<" ++ result ++ ">(" ++ arguments ++ ")")

/-- Whether an implementation awaits its call: of what the helper gives for
nothing it makes a task. -/
def Awaits (m : Method) : Prop :=
  m.flavour ≠ .sync ∧ m.result = "void"

theorem isVoid_iff : m.isVoid = true ↔ m.result = "void" :=
  beq_iff_eq

/-- The implementation tests for a cancellable method without a result,
which is when a task has to be made. -/
theorem awaits_iff : m.awaits = true ↔ m.Awaits := by
  rw [awaits, Bool.and_eq_true, isVoid_iff, Flavour.isCancellable_iff, and_comm]
  rfl

/-- The placeholder for no result is written exactly where the result type
is that of nothing. -/
theorem isHelperResult_iff : m.IsHelperResult text ↔ text = m.helperResult := by
  rw [helperResult]
  constructor
  · rintro (hResult | hResult)
    · rw [if_pos (isVoid_iff.mpr hResult)]
    · rw [if_neg (isVoid_iff.not.mpr hResult)]
  · rintro rfl
    split
    · next hResult => exact .nothing (isVoid_iff.mp hResult)
    · next hResult => exact .value (isVoid_iff.not.mp hResult)

/-- An implementation has one call to evaluate. -/
theorem isCall_iff {url function : String} :
    m.IsCall url function text ↔
      text = m.flavour.helper ++ "<" ++ m.helperResult ++ ">(" ++
        ", ".intercalate (m.arguments url function) ++ ")" := by
  constructor
  · rintro ⟨hHelper, hResult, hToken, hArguments⟩
    rw [Flavour.isHelper_iff.mp hHelper, isHelperResult_iff.mp hResult,
      Text.separated_iff.mp hArguments, Flavour.onlyLater_iff.mp hToken]
    rfl
  · rintro rfl
    exact .of (Flavour.isHelper_iff.mpr rfl) (isHelperResult_iff.mpr rfl)
      (Flavour.onlyLater_iff.mpr rfl) (Text.separated_intercalate _ _)

end Method

end ScriptBindings
