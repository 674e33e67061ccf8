import ScriptBindings.Declaration.Reader
import ScriptBindings.Proofs.Declaration.Partition
import ScriptBindings.Proofs.Declaration.Reading
import ScriptBindings.Proofs.TypeExpr.Walks

/-! The two phases of reading a module agree on its brackets. Once the
statements are found, no signature is refused for its brackets: whatever is
cut out of a statement is balanced, so every later walk succeeds. -/
namespace ScriptBindings

open Text Outcomes ScriptBindings.Bracket

namespace Signature

open TypeExpr (Reader)

/-- The faults that are none of the brackets. -/
def Fault.IsLocal : Fault → Prop
  | .missingName | .missingParameters _ | .textAfterParameters _ | .invalidGeneric _
  | .invalidParameter _ | .type .missing => True
  | .unclosedGenerics | .unclosedParameters | .type (.unbalanced _) | .unbalanced _ => False

/-- The walks made in reading the text of a type parameter list. -/
inductive GenericsWalk (text : List Char) : Walk → Prop where
  | entries : GenericsWalk text (.split ',' text)
  | default {found : List (List Char)} {entry : List Char} (hEntries : entries text = .ok found)
      (hEntry : entry ∈ found) :
      GenericsWalk text (.search (fun c rest => c == '=' && rest.head? != some '>')
        ((afterWord? "const" entry).getD entry))
  | constraint {found : List (List Char)} {entry constraint : List Char} {name : String}
      {walk : Walk} (hEntries : Signature.entries text = .ok found) (hEntry : entry ∈ found)
      (hParts : genericParts entry = .ok (name, some constraint))
      (later : Reader.type.Walks constraint walk) : GenericsWalk text walk

/-- The walks made in reading the text of a parameter list. -/
inductive ParametersWalk (text : List Char) : Walk → Prop where
  | entries : ParametersWalk text (.split ',' text)
  | name {found : List (List Char)} {entry : List Char} (hEntries : entries text = .ok found)
      (hEntry : entry ∈ found) :
      ParametersWalk text (.search (fun c _ => c == ':')
        ((after? ['.', '.', '.'] entry).getD entry))
  | type {found : List (List Char)} {entry declared type : List Char} {walk : Walk}
      (hEntries : Signature.entries text = .ok found) (hEntry : entry ∈ found)
      (hParts : parameterParts entry = .ok (declared, some type))
      (later : Reader.type.Walks type walk) : ParametersWalk text walk

/-- The walks made in reading a signature, behind its keywords. -/
inductive Walks (text : List Char) : Walk → Prop where
  | genericClause (hAngle : (afterName text).head? = some '<') :
      Walks text (.group (afterName text))
  | generic {inside rest : List Char} {walk : Walk} (hAngle : (afterName text).head? = some '<')
      (hGroup : group? (afterName text) = .ok (some (inside, rest)))
      (later : GenericsWalk inside walk) : Walks text walk
  | parameterList {generics : List GenericParameter} {rest : List Char}
      (hClause : readGenericClause (afterName text) = .ok (generics, rest))
      (hRound : rest.head? = some '(') : Walks text (.group rest)
  | parameter {generics : List GenericParameter} {rest inside tail : List Char} {walk : Walk}
      (hClause : readGenericClause (afterName text) = .ok (generics, rest))
      (hRound : rest.head? = some '(') (hGroup : group? rest = .ok (some (inside, tail)))
      (later : ParametersWalk inside walk) : Walks text walk
  | result {generics : List GenericParameter} {rest inside tail type : List Char} {walk : Walk}
      (hClause : readGenericClause (afterName text) = .ok (generics, rest))
      (hRound : rest.head? = some '(') (hGroup : group? rest = .ok (some (inside, tail)))
      (hColon : trim tail = ':' :: type) (later : Reader.type.Walks type walk) : Walks text walk

variable {text entry declared type constraint inside rest : List Char} {fault : Fault}
  {walk : Walk}

/-! ### Every walk over a balanced text succeeds -/

/-- The entries of a list are balanced if the list can be cut at all. -/
theorem balanced_of_mem_entries {found : List (List Char)} (h : entries text = .ok found)
    (hEntry : entry ∈ found) : Balanced entry := by
  obtain ⟨cut, hCut, h⟩ := bind_ok h
  cases h
  obtain ⟨raw, hRaw, rfl⟩ := List.mem_map.mp (List.mem_filter.mp hEntry).1
  exact (balanced_of_mem_splitTop (by decide) (mapError_ok hCut) hRaw).trim

theorem balanced_dropWhile_isNameChar (h : Balanced text) :
    Balanced (text.dropWhile isNameChar) := by
  rw [← List.takeWhile_append_dropWhile (p := isNameChar) (l := text)] at h
  exact (Balanced.plain_append_iff fun c hc =>
    isPlain_of_isNameChar (List.mem_takeWhile_imp hc)).mp h

theorem balanced_without_const (h : Balanced entry) :
    Balanced ((afterWord? "const" entry).getD entry) := by
  cases hConst : afterWord? "const" entry with
  | none => exact h
  | some rest => exact h.afterWord? rfl hConst

theorem balanced_without_dots (h : Balanced entry) :
    Balanced ((after? ['.', '.', '.'] entry).getD entry) := by
  cases hDots : after? ['.', '.', '.'] entry with
  | none => exact h
  | some rest => exact h.after? (List.all_eq_true.mp rfl) hDots

/-- What stands before the default of a type parameter is balanced. -/
theorem balanced_genericEntry {left : List Char} (h : Balanced entry)
    (hLeft : genericEntry entry = .ok left) : Balanced left := by
  obtain ⟨found, hFound, hLeft⟩ := bind_ok hLeft
  cases found with
  | none =>
      cases hLeft
      exact balanced_without_const h
  | some cut =>
      cases hLeft
      obtain ⟨c, -, -, hBefore⟩ := breakTop_some (mapError_ok hFound)
      exact hBefore.trimEnd

theorem balanced_afterName (h : Balanced text) : Balanced (afterName text) :=
  (balanced_dropWhile_isNameChar h).trimStart

/-- The constraint of a type parameter is balanced, so that reading it as a
type meets no bracket fault. -/
theorem balanced_constraint {name : String} (h : Balanced entry)
    (hParts : genericParts entry = .ok (name, some constraint)) : Balanced constraint := by
  rw [genericParts_eq] at hParts
  obtain ⟨left, hLeft, hParts⟩ := bind_ok hParts
  unfold constrainedName at hParts
  split at hParts
  · split at hParts
    · cases hParts
    · split at hParts
      · next hWord =>
          cases hParts
          exact (balanced_afterName (balanced_genericEntry h hLeft)).afterWord? rfl hWord
      · cases hParts
  · cases hParts

theorem balanced_parameter_type (h : Balanced entry)
    (hParts : parameterParts entry = .ok (declared, some type)) : Balanced type := by
  obtain ⟨found, hFound, hParts⟩ := bind_ok hParts
  cases found with
  | none => cases hParts
  | some cut =>
      cases hParts
      obtain ⟨c, hText, hColon, hBefore⟩ := breakTop_some (mapError_ok hFound)
      have hEntry := balanced_without_dots h
      rw [hText] at hEntry
      obtain rfl : c = ':' := by simpa using hColon
      exact hEntry.of_append_cons hBefore (by decide)

/-- In the list of type parameters every walk is made over balanced text and
succeeds. -/
theorem GenericsWalk.succeeds (h : GenericsWalk text walk) (hText : Balanced text) :
    walk.Succeeds := by
  cases h with
  | entries => exact exists_splitTop ',' hText
  | default hEntries hEntry =>
      exact exists_breakTop _ (balanced_without_const (balanced_of_mem_entries hEntries hEntry))
  | constraint hEntries hEntry hParts later =>
      exact later.succeeds (balanced_constraint (balanced_of_mem_entries hEntries hEntry) hParts)

/-- And so in the list of parameters, with the walks over the type of each
parameter. -/
theorem ParametersWalk.succeeds (h : ParametersWalk text walk) (hText : Balanced text) :
    walk.Succeeds := by
  cases h with
  | entries => exact exists_splitTop ',' hText
  | name hEntries hEntry =>
      exact exists_breakTop _ (balanced_without_dots (balanced_of_mem_entries hEntries hEntry))
  | type hEntries hEntry hParts later =>
      exact later.succeeds
        (balanced_parameter_type (balanced_of_mem_entries hEntries hEntry) hParts)

/-- A bracket that a balanced text begins with is found closed, and what it
encloses and what follows it are balanced. -/
theorem balanced_of_group? {tail : List Char} {opener : Char} {kind : Bracket}
    (hText : Balanced text) (hHead : text.head? = some opener)
    (hOpener : opening? opener = some kind) (hGroup : group? text = .ok (some (inside, tail))) :
    Balanced inside ∧ Balanced tail := by
  obtain ⟨rest, rfl⟩ := List.head?_eq_some_iff.mp hHead
  exact hText.of_group?_some hOpener hGroup

/-- A balanced text that begins with a bracket has the other one to it. -/
theorem group_succeeds {opener : Char} {kind : Bracket} (hText : Balanced text)
    (hHead : text.head? = some opener) (hOpener : opening? opener = some kind) :
    (Walk.group text).Succeeds := by
  obtain ⟨rest, rfl⟩ := List.head?_eq_some_iff.mp hHead
  exact exists_group? hText hOpener

/-- What follows the type parameters is balanced, as they are a group. -/
theorem balanced_of_readGenericClause {generics : List GenericParameter} (hText : Balanced text)
    (h : readGenericClause text = .ok (generics, rest)) : Balanced rest := by
  unfold readGenericClause at h
  split at h
  · next hAngle =>
      obtain ⟨found, hFound, h⟩ := bind_ok h
      cases found with
      | none => cases h
      | some cut =>
          obtain ⟨parameters, -, h⟩ := bind_ok h
          cases h
          have hParts := balanced_of_group? hText (by simpa using hAngle) rfl (mapError_ok hFound)
          exact hParts.2.trimStart
  · cases h
    exact hText

/-- No walk made in reading a balanced signature fails. -/
theorem Walks.succeeds (h : Walks text walk) (hText : Balanced text) : walk.Succeeds := by
  have hAfter := balanced_afterName hText
  cases h with
  | genericClause hAngle => exact group_succeeds hAfter hAngle rfl
  | generic hAngle hGroup later =>
      exact later.succeeds (balanced_of_group? hAfter hAngle rfl hGroup).1
  | parameterList hClause hRound =>
      exact group_succeeds (balanced_of_readGenericClause hAfter hClause) hRound rfl
  | parameter hClause hRound hGroup later =>
      have hRest := balanced_of_readGenericClause hAfter hClause
      exact later.succeeds (balanced_of_group? hRest hRound rfl hGroup).1
  | @result generics rest inside tail type _ hClause hRound hGroup hColon later =>
      have hRest := balanced_of_readGenericClause hAfter hClause
      have hTail := (balanced_of_group? hRest hRound rfl hGroup).2.trim
      rw [hColon] at hTail
      have hColonPlain : ∀ c ∈ [':'], isPlain c = true := List.all_eq_true.mp rfl
      exact later.succeeds ((Balanced.plain_append_iff hColonPlain).mp hTail)

/-! ### A fault of brackets is a walk that fails -/

/-- A fault within a type is told by the offset in it, and comes of a walk
that failed there. -/
theorem exists_error_of_within {α : Type} {walked : Except Bracket.Fault α}
    (h : within walked = .error fault) : ∃ other, walked = .error other := by
  obtain ⟨other, hOther, -⟩ := mapError_error h
  exact ⟨other, hOther⟩

/-- If entries are refused then because the walk that cuts them failed. -/
theorem split_fails_of_entries (h : entries text = .error fault) :
    ¬(Walk.split ',' text).Succeeds := by
  rcases bind_error h with hSplit | ⟨cut, -, hNone⟩
  · obtain ⟨other, hOther⟩ := exists_error_of_within hSplit
    simp [Walk.Succeeds, hOther]
  · cases hNone

/-- A fault of brackets in a type is one of a walk made in reading it. The
other faults of a type are local to it. -/
theorem fails_of_readType {generics : List String} (h : readType generics type = .error fault)
    (hFault : ¬fault.IsLocal) : Reader.type.Fails type := by
  obtain ⟨other, hOther, rfl⟩ := mapError_error h
  cases other with
  | missing => exact absurd trivial hFault
  | unbalanced flaw => exact Reader.fails_of_unbalanced hOther

/-- A fault of brackets in the type parameters is one of a walk in their
list or their constraints. -/
theorem fails_of_readGenerics (h : readGenerics text = .error fault) (hFault : ¬fault.IsLocal) :
    Walk.SomeFails (GenericsWalk text) := by
  rcases bind_error h with hEntries | ⟨found, hEntries, h⟩
  · exact ⟨_, .entries, split_fails_of_entries hEntries⟩
  · rcases bind_error h with hParts | ⟨parts, hParts, h⟩
    · obtain ⟨entry, hEntry, hPart⟩ := mapM_error hParts
      rw [genericParts_eq] at hPart
      rcases bind_error hPart with hGeneric | ⟨left, -, hName⟩
      · rcases bind_error hGeneric with hSearch | ⟨cut, -, hNone⟩
        · obtain ⟨other, hOther⟩ := exists_error_of_within hSearch
          exact ⟨_, .default hEntries hEntry, by simp [Walk.Succeeds, hOther]⟩
        · cases cut <;> cases hNone
      · unfold constrainedName at hName
        split at hName
        · split at hName
          · cases hName
          · split at hName
            · cases hName
            · cases hName
              exact absurd trivial hFault
        · cases hName
          exact absurd trivial hFault
    · obtain ⟨⟨name, constraint⟩, hPart, hRead⟩ := mapM_error h
      cases constraint with
      | none => cases hRead
      | some constraint =>
          obtain ⟨entry, hEntry, hGeneric⟩ := mapM_ok_mem hParts hPart
          rcases bind_error hRead with hType | ⟨type, -, hNone⟩
          · obtain ⟨walk, hWalk, hFails⟩ := fails_of_readType hType hFault
            exact ⟨walk, .constraint hEntries hEntry hGeneric hWalk, hFails⟩
          · cases hNone

/-- A fault of brackets in the parameters likewise. -/
theorem fails_of_readParameters {generics : List String}
    (h : readParameters generics text = .error fault) (hFault : ¬fault.IsLocal) :
    Walk.SomeFails (ParametersWalk text) := by
  rcases bind_error h with hEntries | ⟨found, hEntries, h⟩
  · exact ⟨_, .entries, split_fails_of_entries hEntries⟩
  · rcases bind_error h with hAll | ⟨parameters, -, hNone⟩
    · obtain ⟨entry, hEntry, hRead⟩ := mapM_error hAll
      rw [readParameter_eq] at hRead
      rcases bind_error hRead with hParts | ⟨⟨declared, type⟩, hParts, hNamed⟩
      · rcases bind_error hParts with hSearch | ⟨cut, -, hNone⟩
        · obtain ⟨other, hOther⟩ := exists_error_of_within hSearch
          exact ⟨_, .name hEntries hEntry, by simp [Walk.Succeeds, hOther]⟩
        · cases cut <;> cases hNone
      · unfold namedParameter at hNamed
        dsimp only at hNamed
        split at hNamed
        · split at hNamed
          · cases hNamed
          · have hType := map_error hNamed
            cases type with
            | none => cases hType
            | some type =>
                obtain ⟨walk, hWalk, hFails⟩ := fails_of_readType hType hFault
                exact ⟨walk, .type hEntries hEntry hParts hWalk, hFails⟩
        · cases hNamed
          exact absurd trivial hFault
    · cases hNone

/-- And one in the clause as a whole, which may have no end. -/
theorem fails_of_readGenericClause (h : readGenericClause (afterName text) = .error fault)
    (hFault : ¬fault.IsLocal) : Walk.SomeFails (Walks text) := by
  unfold readGenericClause at h
  split at h
  · next hAngle =>
      have hHead : (afterName text).head? = some '<' := by simpa using hAngle
      rcases bind_error h with hGroup | ⟨found, hGroup, h⟩
      · obtain ⟨other, hOther⟩ := exists_error_of_within hGroup
        exact ⟨_, .genericClause hHead, by simp [Walk.Succeeds, hOther]⟩
      · cases found with
        | none => exact ⟨_, .genericClause hHead, by simp [Walk.Succeeds, mapError_ok hGroup]⟩
        | some cut =>
            rcases bind_error h with hGenerics | ⟨generics, -, hNone⟩
            · obtain ⟨walk, hWalk, hFails⟩ := fails_of_readGenerics hGenerics hFault
              exact ⟨walk, .generic hHead (mapError_ok hGroup) hWalk, hFails⟩
            · cases hNone
  · cases h

/-- A signature is refused for its brackets only if a walk made in reading
it fails. -/
theorem fails_of_parse (h : parse text = .error fault) (hFault : ¬fault.IsLocal) :
    Walk.SomeFails (Walks text) := by
  rw [parse_eq] at h
  split at h
  · rcases bind_error h with hClause | ⟨⟨generics, rest⟩, hClause, h⟩
    · exact fails_of_readGenericClause hClause hFault
    · dsimp only at h
      split at h
      · next hRound =>
          rcases bind_error h with hGroup | ⟨found, hGroup, h⟩
          · obtain ⟨other, hOther⟩ := exists_error_of_within hGroup
            exact ⟨_, .parameterList hClause hRound, by simp [Walk.Succeeds, hOther]⟩
          · cases found with
            | none =>
                exact ⟨_, .parameterList hClause hRound,
                  by simp [Walk.Succeeds, mapError_ok hGroup]⟩
            | some cut =>
                rcases bind_error h with hParameters | ⟨parameters, -, h⟩
                · obtain ⟨walk, hWalk, hFails⟩ := fails_of_readParameters hParameters hFault
                  exact ⟨walk, .parameter hClause hRound (mapError_ok hGroup) hWalk, hFails⟩
                · rcases bind_error h with hResult | ⟨returnType, -, hNone⟩
                  · unfold readReturnType at hResult
                    split at hResult
                    · cases hResult
                    · next hColon =>
                        obtain ⟨walk, hWalk, hFails⟩ := fails_of_readType hResult hFault
                        exact ⟨walk, .result hClause hRound (mapError_ok hGroup) hColon hWalk,
                          hFails⟩
                    · cases hResult
                      exact absurd trivial hFault
                  · cases hNone
      · cases h
        exact absurd trivial hFault
  · cases h
    exact absurd trivial hFault

/-- On balanced text all walks succeed, so that no fault of brackets remains
to be reported. -/
theorem isLocal_of_balanced (hText : Balanced text) (h : parse text = .error fault) :
    fault.IsLocal := by
  by_contra hFault
  obtain ⟨walk, hWalk, hFails⟩ := fails_of_parse h hFault
  exact hFails (hWalk.succeeds hText)

/-- The keywords are plain, and what follows them in a balanced statement is
balanced. -/
theorem balanced_of_afterKeywords? {statement : List Char} (hStatement : Balanced statement)
    (h : afterKeywords? statement = some text) : Balanced text := by
  obtain ⟨rest, hExport, hFunction⟩ := Option.bind_eq_some_iff.mp h
  have hRest := hStatement.afterWord? rfl hExport
  refine Balanced.afterWord? ?_ rfl hFunction
  cases hDeclare : afterWord? "declare" rest with
  | none => exact hRest
  | some declared => exact hRest.afterWord? rfl hDeclare

end Signature

open Declaration

/-- What is recorded about a module whose statements were found: repeated
names and faults of single signatures, none of them of brackets. -/
def Diagnostic.IsLocal (d : Diagnostic) : Prop :=
  (∃ symbol, d.kind = .duplicateSymbol symbol) ∨
    ∃ fault : Signature.Fault, fault.IsLocal ∧ d.kind = .malformedSignature fault.message

/-- The complaints about statements are about their signatures and names
only. -/
theorem isLocal_of_mem_readStatements {path : String} {source : List Char} {taken : List String}
    {found : List Statement} {d : Diagnostic}
    (hFound : ∀ statement ∈ found, Balanced statement.text)
    (h : d ∈ (readStatements path source taken found).2) : d.IsLocal := by
  induction found generalizing taken with
  | nil => cases h
  | cons statement rest ih =>
      simp only [List.forall_mem_cons] at hFound
      unfold readStatements at h
      split at h
      · exact ih hFound.2 h
      · next fault hFinding =>
          rcases List.mem_cons.mp h with rfl | hRest
          · refine Or.inr ⟨fault, ?_, rfl⟩
            unfold Finding.ofStatement at hFinding
            split at hFinding
            · cases hFinding
            · next text hKeywords =>
                split at hFinding
                · cases hFinding
                · next hParse =>
                    cases hFinding
                    exact Signature.isLocal_of_balanced
                      (Signature.balanced_of_afterKeywords? hFound.1 hKeywords) hParse
          · exact ih hFound.2 hRest
      · split at h
        · rcases List.mem_cons.mp h with rfl | hRest
          · exact Or.inl ⟨_, rfl⟩
          · exact ih hFound.2 hRest
        · exact ih hFound.2 h

/-- Once the statements of a source are found, no later walk fails: every
statement is balanced, every walk that is made in reading a signature
succeeds, and what is recorded about the module are local faults only. -/
theorem walks_succeed_of_statements (source : String) (found : List Statement)
    (h : statements source.toList = .ok found) :
    (∀ statement ∈ found, Balanced statement.text ∧
      ∀ text, Signature.afterKeywords? statement.text = some text →
        (∀ walk, Signature.Walks text walk → walk.Succeeds) ∧
        ∀ fault, Signature.parse text = .error fault → fault.IsLocal) ∧
    ∀ path, (readModule path source).module?.isSome = true ∧
      ∀ d ∈ (readModule path source).diagnostics, d.IsLocal := by
  have hBalanced : ∀ statement ∈ found, Balanced statement.text :=
    fun statement hMem => balanced_of_mem_statements h hMem
  refine ⟨fun statement hMem => ⟨hBalanced statement hMem, fun text hKeywords => ?_⟩,
    fun path => ?_⟩
  · have hText := Signature.balanced_of_afterKeywords? (hBalanced statement hMem) hKeywords
    exact ⟨fun walk hWalk => hWalk.succeeds hText,
      fun fault hFault => Signature.isLocal_of_balanced hText hFault⟩
  · rw [readModule_of_statements path h]
    exact ⟨rfl, fun d hd => isLocal_of_mem_readStatements hBalanced hd⟩

theorem walks_succeed_of_one_statement :
    statements "export function f<T>(x: T[]): Promise<T | null>;".toList =
        .ok [⟨0, "export function f<T>(x: T[]): Promise<T | null>".toList, none⟩] ∧
      ∀ walk, Signature.Walks "f<T>(x: T[]): Promise<T | null>".toList walk → walk.Succeeds := by
  have hFound : statements "export function f<T>(x: T[]): Promise<T | null>;".toList =
      .ok [⟨0, "export function f<T>(x: T[]): Promise<T | null>".toList, none⟩] := rfl
  obtain ⟨hStatements, -⟩ := walks_succeed_of_statements _ _ hFound
  obtain ⟨-, hSignatures⟩ := hStatements _ (List.mem_singleton.mpr rfl)
  exact ⟨hFound, (hSignatures _ rfl).1⟩

end ScriptBindings
