import ScriptBindings.Proofs.Binding.Declarations
import ScriptBindings.Proofs.Binding.Independence
import ScriptBindings.Proofs.Binding.Methods

/-! The interface and the runtime class agree. Both are described member by
member, apart from how they are printed: the interface promises one member
for each module and for each function and flavour, and the part of the class
for a module provides the members promised for it, in the same order and
under the same declarations. What these declare and what is called behind
them follows from the function alone. -/
namespace ScriptBindings

open Method (indent)

namespace Text

/-- A joined text is its first item and then each other one behind a
separator, so that it can be followed item by item. -/
theorem intercalate_cons (separator first : String) (rest : List String) :
    separator.intercalate (first :: rest) = first ++ String.join (rest.map (separator ++ ·)) := by
  induction rest generalizing first with
  | nil => simp
  | cons next rest ih =>
      rw [String.intercalate_cons_cons, ih next, List.map_cons, String.join_cons]
      simp only [String.append_assoc]

/-- Texts that come in groups may be put together group by group. -/
theorem join_flatMap {α : Type} (texts : α → List String) (xs : List α) :
    String.join (xs.flatMap texts) = String.join (xs.map fun x => String.join (texts x)) := by
  induction xs with
  | nil => rfl
  | cons x xs ih => rw [List.flatMap_cons, String.join_append, List.map_cons, String.join_cons, ih]

end Text

/-- What follows the declaration of a member: nothing, or what it
evaluates. -/
inductive MemberBody where
  | none
  | beside (expression : String)
  | below (expression : String)
  deriving DecidableEq, Repr

/-- A member of a generated type. -/
structure TypeMember where
  summary : Option String
  modifiers : List String
  /-- Result, name, type parameters, parameters and constraints. -/
  declaration : String
  body : MemberBody
  deriving DecidableEq, Repr

namespace MemberBody

def text : MemberBody → String
  | none => ""
  | beside expression => " => " ++ expression
  | below expression => "\n" ++ indent ++ "    => " ++ expression

end MemberBody

namespace TypeMember

def text (member : TypeMember) : String :=
  (member.summary.map (Generator.summaryText indent)).getD "" ++
    indent ++ String.join (member.modifiers.map (· ++ " ")) ++ member.declaration ++
    member.body.text ++ ";\n"

/-- The members of a type in braces, a blank line between them. -/
def blockText (members : List TypeMember) : String :=
  "\n\x7b\n" ++ "\n".intercalate (members.map text) ++ "\x7d\n"

end TypeMember

/-! ### The flavours of a function -/

/-- The flavours that settings enable. -/
inductive InvocationSettings.Enables (s : InvocationSettings) : Flavour → Prop where
  | sync (hEnabled : s.syncEnabled = true) : Enables s .sync
  | trySync (hEnabled : s.trySyncEnabled = true) : Enables s .trySync
  | async (hEnabled : s.asyncEnabled = true) : Enables s .async

/-- The function only promises its result, and the settings bind such
functions asynchronously only. -/
def Signature.OnlyAsync (f : Signature) (s : InvocationSettings) : Prop :=
  s.promiseOnlyAsync = true ∧ ∃ result, f.returnType = .promiseOf result

/-- The flavours that a function is bound with, in the order of its
methods. -/
structure Signature.BoundWith (f : Signature) (s : InvocationSettings) (flavours : List Flavour) :
    Prop where
  ordered : flavours.Sublist [.sync, .trySync, .async]
  onlyAsync : f.OnlyAsync s → flavours = [.async]
  enabled : ¬f.OnlyAsync s → ∀ flavour, flavour ∈ flavours ↔ s.Enables flavour

/-- The three settings are tested one for each flavour, as they are
named. -/
theorem InvocationSettings.enables_iff {s : InvocationSettings} {flavour : Flavour} :
    s.Enables flavour ↔ flavour.isEnabled s = true := by
  constructor
  · rintro (hEnabled | hEnabled | hEnabled) <;> exact hEnabled
  · cases flavour with
    | sync => exact .sync
    | trySync => exact .trySync
    | async => exact .async

/-- A function is asynchronous exactly if its return type is a promise. An
alias of one, or a union with one, does not count. -/
theorem Signature.isAsync_iff {f : Signature} :
    f.isAsync = true ↔ ∃ result, f.returnType = .promiseOf result := by
  rw [isAsync]
  cases f.returnType <;> simp [TypeExpr.isPromise]

/-- The enabled flavours were sorted out of a list in the order of methods,
so that their order needs no proof of its own. -/
theorem Generator.boundWith_flavoursFor {s : Settings} {g : Generator} (hg : ofSettings s = .ok g)
    (f : Signature) : f.BoundWith s.invocation (g.flavoursFor f) := by
  obtain ⟨rfl, -, hFlavours, -⟩ := ofSettings_ok hg
  have hOnly : (f.isAsync && g.settings.invocation.promiseOnlyAsync) = true ↔
      f.OnlyAsync g.settings.invocation := by
    rw [Bool.and_eq_true, Signature.isAsync_iff, and_comm]
    rfl
  unfold flavoursFor
  split
  · next hAsync =>
      exact ⟨by decide, fun _ => rfl, fun hOther => absurd (hOnly.mp hAsync) hOther⟩
  · next hOther =>
      refine ⟨hFlavours ▸ List.filter_sublist, fun hAsync => absurd (hOnly.mpr hAsync) hOther,
        fun _ flavour => ?_⟩
      rw [hFlavours, List.mem_filter, InvocationSettings.enables_iff]
      exact and_iff_right (by cases flavour <;> decide)

namespace Generator

open TypeMember (blockText)

variable (g : Generator) (m : ScriptModule) (f : Signature) (flavour : Flavour)

/-! ### The members of the interface -/

/-- A task that is done when all calls are. -/
def allOf : List String → String
  | [] => "Task.CompletedTask"
  | calls => "Task.WhenAll(" ++ ", ".intercalate calls ++ ")"

/-- The member that awaits the preload of every module. -/
def preloadAllMember (modules : List ScriptModule) : TypeMember where
  summary := "Loads every bound module."
  modifiers := []
  declaration := "Task " ++ g.settings.preloadAllName ++ "()"
  body := .beside (allOf (modules.map fun m => g.preloadName m ++ "()"))

def preloadDeclaration : String :=
  "Task " ++ g.preloadName m ++ "()"

def methodDeclaration : String :=
  (g.method m f flavour).declaration

def promisedPreload : TypeMember where
  summary := "Loads module '" ++ Text.escapeXml m.url ++ "' ahead of its first invocation."
  modifiers := []
  declaration := g.preloadDeclaration m
  body := .none

def promisedMethod : TypeMember where
  summary := methodSummary m.url f (g.method m f flavour)
  modifiers := []
  declaration := g.methodDeclaration m f flavour
  body := .none

/-- What the interface declares for a module. -/
def promised : List TypeMember :=
  g.promisedPreload m :: m.functions.flatMap fun f =>
    (g.flavoursFor f).map fun flavour => g.promisedMethod m f flavour

/-! ### The members of the runtime class -/

/-- Whether a method awaits its helper: it returns a task, and the function
has no result. -/
def isAwaited : Bool :=
  flavour.isCancellable && g.typeMap.host f.resultType == voidType

/-- What the helper is called with: the module, the function, the token of a
method that can be cancelled, and every parameter. -/
def helperArguments : List String :=
  ["\"" ++ m.url ++ "\"", "\"" ++ f.name ++ "\""] ++
    (if flavour.isCancellable then [(g.method m f flavour).token] else []) ++ g.parameterNames f

def helperCall : String :=
  flavour.helper ++ "<" ++ (g.method m f flavour).helperResult ++ ">(" ++
    ", ".intercalate (g.helperArguments m f flavour) ++ ")"

def providedPreload : TypeMember where
  summary := none
  modifiers := ["public"]
  declaration := g.preloadDeclaration m
  body := .beside ("GetOrLoadModule(\"" ++ m.url ++ "\")")

def providedMethod : TypeMember where
  summary := none
  modifiers := if g.isAwaited f flavour then ["public", "async"] else ["public"]
  declaration := g.methodDeclaration m f flavour
  body := .below ((if g.isAwaited f flavour then "await " else "") ++ g.helperCall m f flavour)

/-- What the runtime class implements for a module. -/
def provided : List TypeMember :=
  g.providedPreload m :: m.functions.flatMap fun f =>
    (g.flavoursFor f).map fun flavour => g.providedMethod m f flavour

/-- A member of the class that implements one of the interface: both have
the same declaration, which is public in the class and has a body there
only. -/
structure Implements (promised provided : TypeMember) : Prop where
  declaration : provided.declaration = promised.declaration
  modifiers : promised.modifiers = [] ∧
    (provided.modifiers = ["public"] ∨ provided.modifiers = ["public", "async"])
  body : promised.body = .none ∧ provided.body ≠ .none

/-- The preload is public in the class, where it has its body, and is
declared alike in both. -/
theorem implements_preload : Implements (g.promisedPreload m) (g.providedPreload m) where
  declaration := rfl
  modifiers := ⟨rfl, Or.inl rfl⟩
  body := ⟨rfl, MemberBody.noConfusion⟩

/-- The two members of a method differ in the modifiers, the body and the
comment only; the declaration is the same text. -/
theorem implements_method :
    Implements (g.promisedMethod m f flavour) (g.providedMethod m f flavour) where
  declaration := rfl
  modifiers := by
    refine ⟨rfl, ?_⟩
    unfold providedMethod
    split
    · exact Or.inr rfl
    · exact Or.inl rfl
  body := ⟨rfl, MemberBody.noConfusion⟩

/-- The class implements what the interface declares for a module, member by
member. -/
theorem implements_provided : List.Forall₂ Implements (g.promised m) (g.provided m) := by
  refine List.Forall₂.cons (g.implements_preload m) ?_
  refine List.rel_flatMap (R := Eq) (List.forall₂_refl m.functions) ?_
  rintro f _ rfl
  rw [List.forall₂_map_left_iff, List.forall₂_map_right_iff]
  exact List.forall₂_same.mpr fun flavour _ => g.implements_method m f flavour

/-- A member of the class that carries out a method. It passes on what the
call of its helper gives, or awaits a call that gives nothing. -/
inductive CarriesOut (method : Method) (declaration call : String) : TypeMember → Prop where
  | passing (hPassing : ¬method.Awaits) :
      CarriesOut method declaration call ⟨none, ["public"], declaration, .below call⟩
  | awaiting (hAwaits : method.Awaits) :
      CarriesOut method declaration call
        ⟨none, ["public", "async"], declaration, .below ("await " ++ call)⟩

/-- The method for a function and flavour, and the two members that it
stands in: the interface declares it, and the class carries it out by a call
of the function. -/
structure Binds (method : Method) (promised provided : TypeMember) : Prop where
  invoked : method.flavour = flavour
  named : method.name = g.methodName m f flavour
  returns : method.result = g.typeMap.host f.resultType
  takes : method.parameters.map (·.name) = f.parameters.map g.parameterName
  declares : method.IsDeclaration promised.declaration
  carriesOut : ∃ call, method.IsCall m.url f.name call ∧
    CarriesOut method promised.declaration call provided

/-! ### The printed texts -/

/-- What the interface begins with, up to its name. -/
def interfaceHead : String :=
  g.header ["System.Threading", "System.Threading.Tasks"] ++ g.namespaceLine ++
    summaryText ""
      ("Typed access to the JavaScript modules bound by <see cref=\"" ++ g.className ++ "\"/>.") ++
    "public interface " ++ g.interfaceName

/-- What the part of the class for a module begins with, up to its name. -/
def moduleHead : String :=
  g.header
      ["System.Threading", "System.Threading.Tasks", "Microsoft.JSInterop",
        "Microsoft.JSInterop.Infrastructure"] ++
    g.namespaceLine ++
    summaryText ""
      ("Bindings for '" ++ Text.escapeXml m.path ++ "', loaded from '" ++
        Text.escapeXml m.url ++ "'.") ++
    "public sealed partial class " ++ g.className

/-- The first member stands at the brace and every other one behind a blank
line. -/
theorem blockText_cons (first : TypeMember) (rest : List TypeMember) :
    blockText (first :: rest) =
      "\n\x7b\n" ++ first.text ++ String.join (rest.map ("\n" ++ ·.text)) ++ "\x7d\n" := by
  rw [blockText, List.map_cons, Text.intercalate_cons, List.map_map, ← String.append_assoc]
  rfl

/-- Only the case of no modules is told apart, and the preloads are awaited
in the order of the modules, each once. -/
theorem preloadAllBody_plan (modules : List ScriptModule) :
    preloadAllBody (g.plan modules) = allOf (modules.map fun m => g.preloadName m ++ "()") := by
  cases modules with
  | nil => rfl
  | cons m rest => simp [preloadAllBody, plan, planModule, allOf, Function.comp_def]

/-- The member of the interface is printed as its comment and its
declaration. -/
theorem text_promisedMethod :
    (g.promisedMethod m f flavour).text =
      (g.method m f flavour).interfaceMember (methodSummary m.url f (g.method m f flavour)) := by
  simp [TypeMember.text, promisedMethod, methodDeclaration, MemberBody.text, summaryText,
    Method.interfaceMember, String.append_assoc]

/-- Whether an implementation awaits depends on the function and the flavour
alone. -/
theorem awaits_method : (g.method m f flavour).awaits = g.isAwaited f flavour :=
  Bool.and_comm _ _

/-- The arguments of the helper are named like the parameters of the
declaration, because both are printed from the same list. -/
theorem arguments_method :
    (g.method m f flavour).arguments m.url f.name = g.helperArguments m f flavour := by
  rw [Method.arguments, helperArguments, parameterNames, ← names_hostParameters]
  rfl

/-- What an implementation evaluates is the one call that its method has. -/
theorem isCall_helperCall :
    (g.method m f flavour).IsCall m.url f.name (g.helperCall m f flavour) := by
  rw [Method.isCall_iff, arguments_method]
  rfl

/-- The member of the class carries out the method as its flavour and result
demand. -/
theorem carriesOut_providedMethod :
    CarriesOut (g.method m f flavour) (g.methodDeclaration m f flavour) (g.helperCall m f flavour)
      (g.providedMethod m f flavour) := by
  rw [providedMethod, ← awaits_method]
  cases hAwaits : (g.method m f flavour).awaits with
  | false => exact .passing fun h => Bool.false_ne_true (hAwaits ▸ Method.awaits_iff.mpr h)
  | true => exact .awaiting (Method.awaits_iff.mp hAwaits)

/-- What the interface declares and the class carries out is the method that
the settings make of the function. -/
theorem binds_method :
    g.Binds m f flavour (g.method m f flavour) (g.promisedMethod m f flavour)
      (g.providedMethod m f flavour) where
  invoked := rfl
  named := rfl
  returns := rfl
  takes := g.names_hostParameters f.parameters
  declares := Method.isDeclaration_iff.mpr rfl
  carriesOut := ⟨_, g.isCall_helperCall m f flavour, g.carriesOut_providedMethod m f flavour⟩

/-- The member of the class is printed as its modifiers, the declaration and
the call below. Splitting the literals lets both sides be compared piece by
piece. -/
theorem text_providedMethod :
    (g.providedMethod m f flavour).text =
      (g.method m f flavour).implementation m.url f.name := by
  have hEnd : (");\n" : String) = ")" ++ ";\n" := rfl
  have hPublic : ("public " : String) = "public" ++ " " := rfl
  have hAsync : ("async " : String) = "async" ++ " " := rfl
  have hFlavour : (g.method m f flavour).flavour = flavour := rfl
  rw [Method.implementation, awaits_method, arguments_method, hEnd, hPublic, hAsync, hFlavour]
  cases hAwaited : g.isAwaited f flavour <;>
    simp [TypeMember.text, providedMethod, methodDeclaration, MemberBody.text, helperCall,
      hAwaited, String.append_assoc, -String.reduceAppend]

/-- The preload of a module is declared behind a comment that names the
URL. -/
theorem text_promisedPreload :
    (g.promisedPreload m).text =
      summaryText indent
          ("Loads module '" ++ Text.escapeXml m.url ++ "' ahead of its first invocation.") ++
        indent ++ "Task " ++ g.preloadName m ++ "();\n" := by
  have hEnd : ("();\n" : String) = "()" ++ ";\n" := rfl
  rw [hEnd]
  simp [TypeMember.text, promisedPreload, preloadDeclaration, MemberBody.text, String.append_assoc,
    -String.reduceAppend]

/-- The preload of a module is implemented by loading its URL. -/
theorem text_providedPreload :
    (g.providedPreload m).text =
      indent ++ "public Task " ++ g.preloadName m ++ "() => GetOrLoadModule(\"" ++ m.url ++
        "\");\n" := by
  have hStart : ("public Task " : String) = "public" ++ " " ++ "Task " := rfl
  have hCall : ("() => GetOrLoadModule(\"" : String) = "()" ++ " => " ++ "GetOrLoadModule(\"" := rfl
  have hEnd : ("\");\n" : String) = "\")" ++ ";\n" := rfl
  rw [hStart, hCall, hEnd]
  simp [TypeMember.text, providedPreload, preloadDeclaration, MemberBody.text, String.append_assoc,
    -String.reduceAppend]

/-- The member that loads all modules has its body in the interface itself,
since the class does not implement it. -/
theorem text_preloadAllMember (modules : List ScriptModule) :
    (g.preloadAllMember modules).text =
      summaryText indent "Loads every bound module." ++ indent ++ "Task " ++
        g.settings.preloadAllName ++ "() => " ++ preloadAllBody (g.plan modules) ++ ";\n" := by
  have hArrow : ("() => " : String) = "()" ++ " => " := rfl
  rw [preloadAllBody_plan, hArrow]
  simp [TypeMember.text, preloadAllMember, MemberBody.text, String.append_assoc,
    -String.reduceAppend]

/-- What the interface prints for a module is what it promises for it, each
member behind a blank line. -/
theorem interfaceMembers_planModule :
    interfaceMembers (g.planModule m) = String.join ((g.promised m).map ("\n" ++ ·.text)) := by
  rw [promised, List.map_cons, String.join_cons, text_promisedPreload, interfaceMembers]
  simp only [planModule, List.map_flatMap, List.map_map, Function.comp_def, text_promisedMethod]
  simp only [String.append_assoc]

/-- The interface is printed from what it promises: a head, the member that
preloads all modules, and the promised members of each module in order. -/
theorem interfaceText_plan (modules : List ScriptModule) :
    g.interfaceText (g.plan modules) =
      g.interfaceHead ++ blockText (g.preloadAllMember modules :: modules.flatMap g.promised) := by
  have hMembers : String.join ((g.plan modules).map interfaceMembers) =
      String.join ((modules.flatMap g.promised).map ("\n" ++ ·.text)) := by
    rw [plan, List.map_map, List.map_flatMap, Text.join_flatMap]
    simp only [Function.comp_def, interfaceMembers_planModule]
  rw [interfaceText, hMembers, blockText_cons, text_preloadAllMember, interfaceHead]
  simp only [String.append_assoc]

/-- The part of the class for a module is printed from what it provides, as
the interface is from what it promises. So the two can be compared member by
member. -/
theorem moduleText_planModule :
    g.moduleText (g.planModule m) = g.moduleHead m ++ blockText (g.provided m) := by
  rw [provided, blockText_cons, text_providedPreload, moduleText, moduleHead]
  simp only [planModule, List.map_flatMap, List.map_map, Function.comp_def, text_providedMethod]
  simp only [String.append_assoc]

end Generator

/-! ### Where methods stand -/

namespace TypeMember

/-- Each member of a block begins a line. -/
theorem exists_blockText_eq {members : List TypeMember} {member : TypeMember}
    (h : member ∈ members) :
    ∃ front rest, (blockText members).toList = front ++ '\n' :: (member.text.toList ++ rest) := by
  have hJoined : ∃ front rest, '\n' :: ("\n".intercalate (members.map text)).toList =
      front ++ '\n' :: (member.text.toList ++ rest) := by
    induction members with
    | nil => cases h
    | cons first later ih =>
        rw [List.map_cons, Text.intercalate_cons]
        rcases List.mem_cons.mp h with rfl | hLater
        · exact ⟨[], _, by rw [String.toList_append]; rfl⟩
        · obtain ⟨front, rest, hRest⟩ := ih hLater
          cases later with
          | nil => cases hLater
          | cons next others =>
              refine ⟨'\n' :: first.text.toList ++ front, rest, ?_⟩
              rw [List.append_assoc, ← hRest, List.map_cons, List.map_cons, String.join_cons,
                Text.intercalate_cons]
              simp
  obtain ⟨front, rest, hText⟩ := hJoined
  refine ⟨"\n\x7b".toList ++ front, rest ++ "\x7d\n".toList, ?_⟩
  have hStart : ("\n\x7b\n" : String).toList = "\n\x7b".toList ++ ['\n'] := rfl
  rw [blockText, String.toList_append, String.toList_append, hStart, List.append_assoc,
    List.append_assoc, List.singleton_append, ← List.cons_append, hText]
  simp

end TypeMember

/-- A method is declared in the interface, on a line of its own, and in the
fragment of this name, where the same declaration is public and what it
evaluates follows on the next line. -/
def GeneratedSources.Declares (sources : GeneratedSources) (name : String) (method : Method) :
    Prop :=
  ∃ declaration, method.IsDeclaration declaration ∧
    ("\n    " ++ declaration ++ ";\n").toList <:+: sources.interface.content.toList ∧
    ∃ fragment ∈ sources.modules, fragment.name = name ∧
      ∃ modifiers ∈ ["public ", "public async "],
        ("\n    " ++ modifiers ++ declaration ++ "\n").toList <:+: fragment.content.toList

namespace Generator

variable {g : Generator} {m : ScriptModule} {f : Signature} {flavour : Flavour}
  {modules : List ScriptModule}

/-- A method is promised for each function of the module and each of its
flavours. -/
theorem promisedMethod_mem_promised (hf : f ∈ m.functions) (hFlavour : flavour ∈ g.flavoursFor f) :
    g.promisedMethod m f flavour ∈ g.promised m :=
  List.mem_cons_of_mem _
    (List.mem_flatMap.mpr ⟨f, hf, List.mem_map.mpr ⟨flavour, hFlavour, rfl⟩⟩)

theorem providedMethod_mem_provided (hf : f ∈ m.functions) (hFlavour : flavour ∈ g.flavoursFor f) :
    g.providedMethod m f flavour ∈ g.provided m :=
  List.mem_cons_of_mem _
    (List.mem_flatMap.mpr ⟨f, hf, List.mem_map.mpr ⟨flavour, hFlavour, rfl⟩⟩)

/-- The interface has each method behind the comment with its summary. The
text in front and behind is left open, so that one method can be looked at
by itself. -/
theorem exists_interfaceText_eq (hm : m ∈ modules) (hf : f ∈ m.functions)
    (hFlavour : flavour ∈ g.flavoursFor f) :
    ∃ front rest, (g.interfaceText (g.plan modules)).toList =
      front ++ '\n' ::
        ((summaryText indent (methodSummary m.url f (g.method m f flavour))).toList ++
          ((indent ++ g.methodDeclaration m f flavour ++ ";\n").toList ++ rest)) := by
  have hMember : g.promisedMethod m f flavour ∈
      g.preloadAllMember modules :: modules.flatMap g.promised :=
    List.mem_cons_of_mem _ (List.mem_flatMap.mpr ⟨m, hm, promisedMethod_mem_promised hf hFlavour⟩)
  obtain ⟨front, rest, hBlock⟩ := TypeMember.exists_blockText_eq hMember
  refine ⟨g.interfaceHead.toList ++ front, rest, ?_⟩
  rw [interfaceText_plan, String.toList_append, hBlock, List.append_assoc]
  simp [TypeMember.text, promisedMethod, MemberBody.text, -List.singleton_append]

/-- A comment ends a line. -/
theorem exists_summaryText_eq (indentation summary : String) :
    ∃ comment, summaryText indentation summary = comment ++ "\n" := by
  refine ⟨indentation ++ "/// <summary>\n" ++ indentation ++ "/// " ++ summary ++ "\n" ++
    indentation ++ "/// </summary>", ?_⟩
  simp [summaryText, String.append_assoc]

/-- The declaration begins a line of the interface, and it ends one. -/
theorem declaration_infix_interfaceText (hm : m ∈ modules) (hf : f ∈ m.functions)
    (hFlavour : flavour ∈ g.flavoursFor f) :
    ("\n    " ++ (g.method m f flavour).declaration ++ ";\n").toList <:+:
      (g.interfaceText (g.plan modules)).toList := by
  obtain ⟨front, rest, hText⟩ := exists_interfaceText_eq hm hf hFlavour
  obtain ⟨comment, hComment⟩ :=
    exists_summaryText_eq indent (methodSummary m.url f (g.method m f flavour))
  refine ⟨front ++ '\n' :: comment.toList, rest, ?_⟩
  rw [hText, hComment]
  simp [indent, methodDeclaration]

/-- A member of the class is its declaration behind the modifiers, with its
body below. -/
theorem CarriesOut.exists_text_eq {method : Method} {declaration call : String}
    {member : TypeMember} (h : CarriesOut method declaration call member) :
    ∃ modifiers ∈ ["public ", "public async "], ∃ body,
      member.text = indent ++ modifiers ++ declaration ++ "\n" ++ body := by
  cases h with
  | passing =>
      refine ⟨"public ", by simp, indent ++ "    => " ++ call ++ ";\n", ?_⟩
      simp [TypeMember.text, MemberBody.text, String.append_assoc]
  | awaiting =>
      refine ⟨"public async ", by simp, indent ++ "    => " ++ ("await " ++ call) ++ ";\n", ?_⟩
      simp [TypeMember.text, MemberBody.text, String.append_assoc]

/-- In the class the declaration is public, and asynchronous if the method
awaits. -/
theorem declaration_infix_moduleText (hf : f ∈ m.functions)
    (hFlavour : flavour ∈ g.flavoursFor f) :
    ∃ modifiers ∈ ["public ", "public async "],
      ("\n    " ++ modifiers ++ (g.method m f flavour).declaration ++ "\n").toList <:+:
        (g.moduleText (g.planModule m)).toList := by
  obtain ⟨front, rest, hBlock⟩ :=
    TypeMember.exists_blockText_eq (providedMethod_mem_provided hf hFlavour)
  obtain ⟨modifiers, hModifiers, body, hText⟩ :=
    (g.carriesOut_providedMethod m f flavour).exists_text_eq
  refine ⟨modifiers, hModifiers, (g.moduleHead m).toList ++ front, body.toList ++ rest, ?_⟩
  rw [moduleText_planModule, String.toList_append (s := g.moduleHead m), hBlock, hText]
  simp [indent, methodDeclaration]

/-- Every method of a plan is declared in what is made of the plan, in the
interface and in the fragment of its module alike. What is said of the
methods of a plan is thereby said of the generated texts. -/
theorem declares_emit (modules : List ScriptModule) :
    ∀ plan ∈ g.plan modules, ∀ bound ∈ plan.methods,
      (g.emit (g.plan modules)).Declares plan.fragmentName bound.2 := by
  refine forall_bound_plan_iff.mpr fun m hm f hf flavour hFlavour => ?_
  refine ⟨_, Method.isDeclaration_iff.mpr rfl, declaration_infix_interfaceText hm hf hFlavour,
    ⟨g.fragmentName m, g.moduleText (g.planModule m)⟩, ?_, rfl,
    declaration_infix_moduleText hf hFlavour⟩
  rw [modules_emit_plan]
  exact List.mem_map_of_mem hm

/-- No module is preloaded twice. The names of the preloads are among those
that a plan without collisions has only once. -/
theorem DistinctNames.preloads (h : g.DistinctNames modules) : (modules.map g.preloadName).Nodup := by
  have hModules := (List.nodup_append.mp h.members).2.1
  refine hModules.sublist ?_
  rw [List.map_eq_flatMap]
  refine List.Sublist.flatMap_right modules fun m _ => ?_
  exact List.Sublist.cons_cons _ (List.nil_sublist _)

end Generator

open Generator TypeMember in
/-- The interface declares the method that preloads all modules, and for
each module in order its preload and a method for each function and flavour.
The fragment of the module holds the same members in the same order, under
the same declarations. Each method is declared as the host language takes
it, and carried out by a call of the helper for its flavour. -/
theorem generate_members {s : Settings} {modules : List ScriptModule}
    {sources : GeneratedSources} (h : generate s modules = .ok sources) :
    ∃ g, ofSettings s = .ok g ∧
      sources.interface.content =
        g.interfaceHead ++ blockText (g.preloadAllMember modules :: modules.flatMap g.promised) ∧
      sources.modules.map (·.content) =
        modules.map (fun m => g.moduleHead m ++ blockText (g.provided m)) ∧
      (∀ m ∈ modules, List.Forall₂ Implements (g.promised m) (g.provided m)) ∧
      (∀ m ∈ modules, ∀ f ∈ m.functions, f.BoundWith s.invocation (g.flavoursFor f) ∧
        ∀ flavour ∈ g.flavoursFor f, g.Binds m f flavour (g.method m f flavour)
          (g.promisedMethod m f flavour) (g.providedMethod m f flavour)) ∧
      (modules.map g.preloadName).Nodup ∧
      ∀ m ∈ modules, ∀ f ∈ m.functions, (g.parameterNames f).Nodup := by
  obtain ⟨g, hg, hNames, rfl⟩ := (generate_eq_ok_iff modules).mp h
  refine ⟨g, hg, g.interfaceText_plan modules, ?_, fun m _ => g.implements_provided m,
    fun m _ f _ => ⟨boundWith_flavoursFor hg f, fun flavour _ => g.binds_method m f flavour⟩,
    hNames.preloads, hNames.parameters⟩
  rw [modules_emit_plan, List.map_map]
  exact List.map_congr_left fun m _ => g.moduleText_planModule m

open Generator TypeMember in
/-- Two modules bound at once where the runtime can, one function with a
result and one without. -/
theorem generate_members_default :
    let clock : ScriptModule :=
      ⟨"clock.d.ts", "clock", "/clock.js", [⟨"now", [], [], .primitive .number, none⟩]⟩
    let log : ScriptModule :=
      ⟨"log.d.ts", "log", "/log.js",
        [⟨"write", [], [⟨"line", .primitive .string, false⟩], .primitive .void, none⟩]⟩
    let declarations := ["Task PreloadClock()",
      "ValueTask<double> Now(CancellationToken cancellationToken = default)",
      "Task PreloadLog()",
      "ValueTask Write(string line, CancellationToken cancellationToken = default)"]
    let bodies : List (List String × MemberBody) := [
      (["public"], .beside "GetOrLoadModule(\"/clock.js\")"),
      (["public"], .below "TSInvokeTrySync<double>(\"/clock.js\", \"now\", cancellationToken)"),
      (["public"], .beside "GetOrLoadModule(\"/log.js\")"),
      (["public", "async"], .below ("await TSInvokeTrySync<IJSVoidResult>(" ++
        "\"/log.js\", \"write\", cancellationToken, line)"))]
    ∃ sources, generate {} [clock, log] = .ok sources ∧
      ∃ g, ofSettings {} = .ok g ∧
        sources.interface.content =
          g.interfaceHead ++
            blockText (g.preloadAllMember [clock, log] :: [clock, log].flatMap g.promised) ∧
        sources.modules.map (·.content) =
          [clock, log].map (fun m => g.moduleHead m ++ blockText (g.provided m)) ∧
        (∀ m ∈ [clock, log], List.Forall₂ Implements (g.promised m) (g.provided m)) ∧
        (∀ m ∈ [clock, log], ∀ f ∈ m.functions, f.BoundWith {} (g.flavoursFor f) ∧
          ∀ flavour ∈ g.flavoursFor f, g.Binds m f flavour (g.method m f flavour)
            (g.promisedMethod m f flavour) (g.providedMethod m f flavour)) ∧
        ([clock, log].map g.preloadName).Nodup ∧
        (∀ m ∈ [clock, log], ∀ f ∈ m.functions, (g.parameterNames f).Nodup) ∧
        ([clock, log].flatMap g.promised).map (·.declaration) = declarations ∧
        ([clock, log].flatMap g.provided).map (fun member => (member.modifiers, member.body)) =
          bodies := by
  intro clock log declarations bodies
  have hOk : (generate {} [clock, log]).map (fun _ => ()) = .ok () := by decide +kernel
  have hTexts : (ofSettings {}).map (fun g =>
      (([clock, log].flatMap g.promised).map (·.declaration),
        ([clock, log].flatMap g.provided).map fun member => (member.modifiers, member.body))) =
      .ok (declarations, bodies) := by
    decide +kernel
  obtain ⟨sources, hSources, -⟩ := Outcomes.map_ok hOk
  obtain ⟨g, hg, hInterface, hModules, hImplements, hBinds, hPreloads, hParameters⟩ :=
    generate_members hSources
  obtain ⟨other, hOther, hSame⟩ := Outcomes.map_ok hTexts
  obtain rfl : other = g := Except.ok.inj (hOther.symm.trans hg)
  obtain ⟨hDeclarations, hBodies⟩ := Prod.mk.inj hSame
  exact ⟨sources, hSources, other, hg, hInterface, hModules, hImplements, hBinds, hPreloads,
    hParameters, hDeclarations, hBodies⟩

end ScriptBindings
