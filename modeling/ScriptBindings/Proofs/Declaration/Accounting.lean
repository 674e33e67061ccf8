import Mathlib.Data.List.Basic
import ScriptBindings.Proofs.Declaration.Reading

/-! How a module is read off its statements. Every statement that begins
like a function adds one function or one diagnostic, in the order of the
source. The first declaration of a name is kept, and what cannot be read
takes no name. -/
namespace ScriptBindings

open Declaration

namespace Declaration.Statement

/-- Whether the statement begins with the keywords of an exported
function. -/
def isDeclaration (statement : Statement) : Bool :=
  (Signature.afterKeywords? statement.text).isSome

/-- The text behind the keywords is that signature. -/
def Declares (statement : Statement) (f : Signature) : Prop :=
  ∃ text, Signature.afterKeywords? statement.text = some text ∧ Signature.parse text = .ok f

/-- The text behind the keywords is refused. -/
def IsMalformed (statement : Statement) (fault : Signature.Fault) : Prop :=
  ∃ text, Signature.afterKeywords? statement.text = some text ∧ Signature.parse text = .error fault

/-- What is read of a statement, wherever it stands. -/
def content (statement : Statement) : List Char × Option String :=
  (statement.text, statement.doc)

end Declaration.Statement

/-- Whether one of the statements declares a function of that name. -/
def DeclaresName (earlier : List Statement) (name : String) : Prop :=
  ∃ statement ∈ earlier, ∃ f, statement.Declares f ∧ f.name = name

/-- What a statement that begins like a function adds to the reading of its
module. -/
inductive Contribution where
  | function (f : Signature)
  | repeated (name : String)
  | malformed (fault : Signature.Fault)
  deriving DecidableEq, Repr

namespace Contribution

def function? : Contribution → Option Signature
  | .function f => some f
  | _ => none

def complaint? : Contribution → Option Diagnostic.Kind
  | .function _ => none
  | .repeated name => some (.duplicateSymbol name)
  | .malformed fault => some (.malformedSignature fault.message)

/-- The contribution of a statement behind the earlier ones. -/
structure Of (earlier : List Statement) (statement : Statement) (added : Contribution) : Prop where
  function_iff : ∀ f, added = .function f ↔
    (∃ g, statement.Declares g ∧ f = { g with doc := statement.doc }) ∧
      ¬DeclaresName earlier f.name
  repeated_iff : ∀ name, added = .repeated name ↔
    DeclaresName [statement] name ∧ DeclaresName earlier name
  malformed_iff : ∀ fault, added = .malformed fault ↔ statement.IsMalformed fault

end Contribution

/-- The functions that the contributions of statements give, in order. -/
def functionsOf (account : List (Statement × Contribution)) : List Signature :=
  account.filterMap fun (_, added) => added.function?

/-- The diagnostics in the contributions, each placed where its statement
begins. -/
def complaintsOf (path : String) (source : List Char) (account : List (Statement × Contribution)) :
    List Diagnostic :=
  account.filterMap fun (statement, added) =>
    added.complaint?.map (.place path source statement.offset)

/-- Every statement that begins like a function, with its contribution
behind the earlier ones, in the order of the source. -/
structure Accounts (earlier found : List Statement) (account : List (Statement × Contribution)) :
    Prop where
  declarations : account.map (·.1) = found.filter (·.isDeclaration)
  contributions : ∀ before statement added after, account = before ++ (statement, added) :: after →
    Contribution.Of (earlier ++ before.map (·.1)) statement added

/-- The first signature of each name that is not taken. -/
def firstOfNames : List String → List Signature → List Signature
  | _, [] => []
  | taken, f :: rest =>
      if taken.contains f.name then firstOfNames taken rest
      else f :: firstOfNames (f.name :: taken) rest

/-- The signatures of the statements that declare one. -/
def signaturesOf (found : List Statement) : List Signature :=
  found.filterMap fun statement =>
    match Finding.ofStatement statement with
    | .function f => some f
    | _ => none

variable {path : String} {source : List Char} {taken : List String} {statement : Statement}
  {earlier found : List Statement} {f : Signature} {fault : Signature.Fault} {name : String}

/-! ### One statement -/

/-- A statement is found to be a function exactly if the text behind its
keywords is a signature. The comment in front of it is taken along. -/
theorem ofStatement_eq_function_iff :
    Finding.ofStatement statement = .function f ↔
      ∃ g, statement.Declares g ∧ f = { g with doc := statement.doc } := by
  unfold Finding.ofStatement Statement.Declares
  split
  · next hOther => simp [hOther]
  · next text hText =>
      split
      · next g hParse => simp [hText, hParse, @eq_comm _ f]
      · next fault hParse => simp [hText, hParse]

/-- It is found to be malformed exactly if the text behind the keywords is
refused, and then with that fault. -/
theorem ofStatement_eq_malformed_iff :
    Finding.ofStatement statement = .malformed fault ↔ statement.IsMalformed fault := by
  unfold Finding.ofStatement Statement.IsMalformed
  split
  · next hOther => simp [hOther]
  · next text hText =>
      split
      · next g hParse => simp [hText, hParse]
      · next other hParse => simp [hText, hParse]

/-- Whatever does not begin like an exported function is passed over, and
nothing else is. -/
theorem ofStatement_eq_other_iff :
    Finding.ofStatement statement = .other ↔ statement.isDeclaration = false := by
  unfold Finding.ofStatement Statement.isDeclaration
  split
  · next hOther => simp [hOther]
  · next text hText =>
      split <;> simp [hText]

/-- Where a statement stands does not matter for what is found in it. -/
theorem ofStatement_congr {other : Statement} (h : statement.content = other.content) :
    Finding.ofStatement statement = Finding.ofStatement other := by
  obtain ⟨hText, hDoc⟩ := Prod.mk.inj h
  rw [Finding.ofStatement, Finding.ofStatement, hText, hDoc]

theorem declaresName_singleton_iff :
    DeclaresName [statement] name ↔ ∃ f, Finding.ofStatement statement = .function f ∧
      f.name = name := by
  simp only [DeclaresName, List.mem_singleton, exists_eq_left, ofStatement_eq_function_iff]
  constructor
  · rintro ⟨g, hDeclares, hName⟩
    exact ⟨_, ⟨g, hDeclares, rfl⟩, hName⟩
  · rintro ⟨_, ⟨g, hDeclares, rfl⟩, hName⟩
    exact ⟨g, hDeclares, hName⟩

/-- The names declared by a list of statements are collected statement by
statement. -/
theorem declaresName_append_iff {later : List Statement} :
    DeclaresName (earlier ++ later) name ↔ DeclaresName earlier name ∨ DeclaresName later name := by
  simp only [DeclaresName, List.mem_append, or_and_right, exists_or]

/-! ### A run over the statements -/

/-- The names taken are those that the statements read so far declare. -/
def Takes (taken : List String) (earlier : List Statement) : Prop :=
  ∀ name, name ∈ taken ↔ DeclaresName earlier name

theorem takes_nil : Takes [] [] := by
  simp [Takes, DeclaresName]

/-- A statement that is no function, be it malformed, takes no name. -/
theorem Takes.of_no_function (h : Takes taken earlier)
    (hNone : ∀ f, Finding.ofStatement statement ≠ .function f) :
    Takes taken (earlier ++ [statement]) := by
  intro name
  rw [h name, declaresName_append_iff, declaresName_singleton_iff, iff_self_or]
  rintro ⟨f, hFinding, -⟩
  exact absurd hFinding (hNone f)

/-- A function takes its name, so that the names taken keep step with the
statements read. -/
theorem Takes.of_function (h : Takes taken earlier)
    (hFinding : Finding.ofStatement statement = .function f) :
    Takes (f.name :: taken) (earlier ++ [statement]) := by
  intro name
  rw [List.mem_cons, h name, declaresName_append_iff, declaresName_singleton_iff, hFinding,
    or_comm]
  simp [eq_comm]

/-- A function whose name was taken before takes no further one. -/
theorem Takes.of_taken (h : Takes taken earlier)
    (hFinding : Finding.ofStatement statement = .function f) (hTaken : f.name ∈ taken) :
    Takes taken (earlier ++ [statement]) := by
  intro name
  rw [← h.of_function hFinding name, List.mem_cons, iff_or_self]
  rintro rfl
  exact hTaken

namespace Contribution.Of

/-- The contribution of a malformed statement is its fault, whatever stands
before it. -/
theorem malformed (hFinding : Finding.ofStatement statement = .malformed fault) :
    Of earlier statement (.malformed fault) where
  function_iff := by simp [← ofStatement_eq_function_iff, hFinding]
  repeated_iff := by simp [declaresName_singleton_iff, hFinding]
  malformed_iff := by simp [← ofStatement_eq_malformed_iff, hFinding]

/-- The contribution of a function whose name was declared before is the
complaint that it repeats the name. -/
theorem repeated (hFinding : Finding.ofStatement statement = .function f)
    (hEarlier : DeclaresName earlier f.name) : Of earlier statement (.repeated f.name) where
  function_iff g := by
    rw [← ofStatement_eq_function_iff, hFinding]
    refine iff_of_false nofun ?_
    rintro ⟨⟨⟩, hFree⟩
    exact hFree hEarlier
  repeated_iff name := by
    rw [declaresName_singleton_iff, hFinding]
    constructor
    · rintro ⟨⟩
      exact ⟨⟨f, rfl, rfl⟩, hEarlier⟩
    · rintro ⟨⟨_, ⟨⟩, rfl⟩, -⟩
      rfl
  malformed_iff := by simp [← ofStatement_eq_malformed_iff, hFinding]

/-- The contribution of the first function of a name is that function with
its comment. -/
theorem function (hFinding : Finding.ofStatement statement = .function f)
    (hFree : ¬DeclaresName earlier f.name) : Of earlier statement (.function f) where
  function_iff g := by
    rw [← ofStatement_eq_function_iff, hFinding]
    constructor
    · rintro ⟨⟩
      exact ⟨rfl, hFree⟩
    · rintro ⟨⟨⟩, -⟩
      rfl
  repeated_iff name := by
    rw [declaresName_singleton_iff, hFinding]
    refine iff_of_false nofun ?_
    rintro ⟨⟨_, ⟨⟩, rfl⟩, hEarlier⟩
    exact hFree hEarlier
  malformed_iff := by simp [← ofStatement_eq_malformed_iff, hFinding]

end Contribution.Of

/-- One step of a run: a statement that begins like a function makes its
contribution, and the run goes on with it among the earlier ones. -/
theorem exists_contribution (h : Takes taken earlier) (hDeclaration : statement.isDeclaration) :
    ∃ added next, Contribution.Of earlier statement added ∧ Takes next (earlier ++ [statement]) ∧
      ∀ rest, readStatements path source taken (statement :: rest) =
        (added.function?.toList ++ (readStatements path source next rest).1,
          (added.complaint?.map (.place path source statement.offset)).toList ++
            (readStatements path source next rest).2) := by
  cases hFinding : Finding.ofStatement statement with
  | other =>
      rw [ofStatement_eq_other_iff.mp hFinding] at hDeclaration
      cases hDeclaration
  | malformed fault =>
      have hNone : ∀ f, Finding.ofStatement statement ≠ .function f := by simp [hFinding]
      refine ⟨.malformed fault, taken, .malformed hFinding, h.of_no_function hNone, fun rest => ?_⟩
      rw [readStatements, hFinding]
      rfl
  | function f =>
      by_cases hTaken : f.name ∈ taken
      · refine ⟨.repeated f.name, taken, .repeated hFinding ((h f.name).mp hTaken),
          h.of_taken hFinding hTaken, fun rest => ?_⟩
        rw [readStatements, hFinding]
        simp [hTaken, Contribution.function?, Contribution.complaint?]
      · refine ⟨.function f, f.name :: taken, .function hFinding (mt (h f.name).mpr hTaken),
          h.of_function hFinding, fun rest => ?_⟩
        rw [readStatements, hFinding]
        simp [hTaken, Contribution.function?, Contribution.complaint?]

/-- The reader does the same without the statements that are not
declarations. -/
theorem readStatements_of_other (h : statement.isDeclaration = false) (rest : List Statement) :
    readStatements path source taken (statement :: rest) =
      readStatements path source taken rest := by
  rw [readStatements, ofStatement_eq_other_iff.mpr h]

/-- A run makes an account of its statements and gives what the account
says. -/
theorem exists_account (h : Takes taken earlier) (found : List Statement) :
    ∃ account, Accounts earlier found account ∧
      readStatements path source taken found =
        (functionsOf account, complaintsOf path source account) := by
  induction found generalizing taken earlier with
  | nil => exact ⟨[], ⟨rfl, by simp⟩, rfl⟩
  | cons statement rest ih =>
      cases hDeclaration : statement.isDeclaration with
      | false =>
          obtain ⟨account, ⟨hDeclarations, hContributions⟩, hRead⟩ := ih h
          refine ⟨account, ⟨?_, hContributions⟩,
            (readStatements_of_other hDeclaration rest).trans hRead⟩
          rw [hDeclarations, List.filter_cons_of_neg (by simpa using hDeclaration)]
      | true =>
          obtain ⟨added, next, hAdded, hNext, hStep⟩ := exists_contribution h hDeclaration
          obtain ⟨account, ⟨hDeclarations, hContributions⟩, hRead⟩ := ih hNext
          refine ⟨(statement, added) :: account, ⟨?_, ?_⟩, ?_⟩
          · rw [List.map_cons, hDeclarations, List.filter_cons_of_pos hDeclaration]
          · intro before other share after hSplit
            cases before with
            | nil =>
                cases hSplit
                simpa using hAdded
            | cons entry before =>
                obtain ⟨rfl, hRest⟩ := List.cons.inj hSplit
                have hLater := hContributions before other share after hRest
                rwa [List.append_assoc] at hLater
          · rw [hStep, hRead]
            cases added <;> rfl

/-! ### The functions alone -/

/-- Apart from complaints, reading keeps the first signature of each name
that was not taken before. -/
theorem functions_readStatements (path : String) (source : List Char) (taken : List String)
    (found : List Statement) :
    (readStatements path source taken found).1 = firstOfNames taken (signaturesOf found) := by
  induction found generalizing taken with
  | nil => rfl
  | cons statement rest ih =>
      unfold readStatements signaturesOf
      rw [List.filterMap_cons]
      cases hFinding : Finding.ofStatement statement with
      | other => exact ih taken
      | malformed fault => exact ih taken
      | function f =>
          dsimp only
          rw [firstOfNames]
          split
          · exact ih taken
          · exact congrArg (f :: ·) (ih (f.name :: taken))

/-- Of each name one function is left, and none of the names taken from the
start. -/
theorem nodup_firstOfNames (taken : List String) (signatures : List Signature) :
    (∀ f ∈ firstOfNames taken signatures, f.name ∉ taken) ∧
      ((firstOfNames taken signatures).map (·.name)).Nodup := by
  induction signatures generalizing taken with
  | nil => simp [firstOfNames]
  | cons f rest ih =>
      rw [firstOfNames]
      split
      · exact ih taken
      · next hFree =>
          obtain ⟨hNew, hNodup⟩ := ih (f.name :: taken)
          refine ⟨fun g hg => ?_, ?_⟩
          · rcases List.mem_cons.mp hg with rfl | hRest
            · simpa using hFree
            · exact fun hTaken => hNew g hRest (List.mem_cons_of_mem _ hTaken)
          · rw [List.map_cons, List.nodup_cons]
            refine ⟨fun hMem => ?_, hNodup⟩
            obtain ⟨g, hg, hName⟩ := List.mem_map.mp hMem
            exact hNew g hg (hName ▸ List.mem_cons_self)

/-- The signatures depend on the texts and comments of the statements and
not on their offsets. -/
theorem signaturesOf_congr {other : List Statement}
    (h : other.map (·.content) = found.map (·.content)) :
    signaturesOf other = signaturesOf found := by
  induction found generalizing other with
  | nil => rw [List.map_eq_nil_iff.mp h]
  | cons statement rest ih =>
      obtain ⟨first, later, rfl, hFirst, hLater⟩ := List.map_eq_cons_iff.mp h
      have hRest := ih hLater
      rw [signaturesOf, signaturesOf, List.filterMap_cons, List.filterMap_cons,
        ofStatement_congr hFirst]
      split <;> simp_all [signaturesOf]

/-- A malformed statement may be taken out without a change to the
signatures of the others. -/
theorem signaturesOf_of_malformed {before after : List Statement}
    (h : statement.IsMalformed fault) :
    signaturesOf (before ++ statement :: after) = signaturesOf (before ++ after) := by
  simp [signaturesOf, ofStatement_eq_malformed_iff.mpr h]

/-! ### Modules -/

/-- A source is refused as a whole only if its brackets do not let it be
divided into statements. -/
theorem readModule_eq_none_iff {path source : String} :
    (∃ d detail, readModule path source = ⟨none, [d]⟩ ∧ d.kind = .unbalancedBrackets detail) ↔
      ∃ fault, statements source.toList = .error fault := by
  constructor
  · rintro ⟨d, detail, hRead, -⟩
    cases hFound : statements source.toList with
    | error fault => exact ⟨fault, rfl⟩
    | ok found =>
        rw [readModule_of_statements path hFound] at hRead
        cases hRead
  · rintro ⟨fault, hFault⟩
    refine ⟨.place path source.toList fault.offset (.unbalancedBrackets fault.flaw.message),
      fault.flaw.message, ?_, rfl⟩
    rw [readModule, hFault]

/-- Every statement is accounted for once. A source whose statements cannot
be told apart costs its module and one diagnostic. Otherwise each statement
that begins like a function adds one function or one diagnostic, no two
functions share a name, and a statement that cannot be read makes no
difference to the functions of the others. -/
theorem readModule_accounts (path source : String) :
    ((∃ d detail, readModule path source = ⟨none, [d]⟩ ∧ d.kind = .unbalancedBrackets detail) ↔
      ∃ fault, statements source.toList = .error fault) ∧
    ∀ found, statements source.toList = .ok found →
      ∃ account m, Accounts [] found account ∧
        readModule path source = ⟨some m, complaintsOf path source.toList account⟩ ∧
        m.functions = functionsOf account ∧ (m.functions.map (·.name)).Nodup ∧
        ∀ before statement after fault, found = before ++ statement :: after →
          statement.IsMalformed fault → ∀ other rest, statements other.toList = .ok rest →
            rest.map (·.content) = (before ++ after).map (·.content) →
            (readModule path other).module?.map (·.functions) = some m.functions := by
  refine ⟨readModule_eq_none_iff, fun found hFound => ?_⟩
  obtain ⟨account, hAccount, hRead⟩ := exists_account takes_nil found
  refine ⟨account, .ofPath path (functionsOf account), hAccount, ?_, rfl, ?_, ?_⟩
  · rw [readModule_of_statements path hFound, hRead]
  · have hNodup := (nodup_firstOfNames [] (signaturesOf found)).2
    rw [← functions_readStatements path source.toList, hRead] at hNodup
    exact hNodup
  · rintro before statement after fault rfl hMalformed other rest hOther hContent
    have hSame : signaturesOf rest = signaturesOf (before ++ statement :: after) :=
      (signaturesOf_congr hContent).trans (signaturesOf_of_malformed hMalformed).symm
    rw [readModule_of_statements path hOther]
    refine congrArg some ?_
    show (readStatements path other.toList [] rest).1 = functionsOf account
    rw [functions_readStatements, hSame, ← functions_readStatements path source.toList, hRead]

/-- A name that is declared again behind a function without a name, and the
same source without the latter. -/
theorem readModule_accounts_repeated :
    let source := "export function f(): void;\nexport function (): void;\nexport function f();"
    let other := "export function f(): void;\nexport function f();"
    let found : List Statement := [⟨0, "export function f(): void".toList, none⟩,
      ⟨27, "export function (): void".toList, none⟩, ⟨53, "export function f()".toList, none⟩]
    statements source.toList = .ok found ∧ ∃ account m, Accounts [] found account ∧
      readModule "m.d.ts" source = ⟨some m, complaintsOf "m.d.ts" source.toList account⟩ ∧
      m.functions = functionsOf account ∧
      (readModule "m.d.ts" other).module?.map (·.functions) = some m.functions := by
  intro source other found
  have hFound : statements source.toList = .ok found := by decide +kernel
  have hOther : statements other.toList = .ok [⟨0, "export function f(): void".toList, none⟩,
      ⟨27, "export function f()".toList, none⟩] := by decide +kernel
  have hMalformed : Statement.IsMalformed ⟨27, "export function (): void".toList, none⟩
      .missingName := ⟨"(): void".toList, by decide, by decide⟩
  obtain ⟨account, m, hAccount, hRead, hFunctions, -, hOthers⟩ :=
    (readModule_accounts "m.d.ts" source).2 found hFound
  exact ⟨hFound, account, m, hAccount, hRead, hFunctions,
    hOthers [_] _ [_] .missingName rfl hMalformed other _ hOther rfl⟩

end ScriptBindings
