import ScriptBindings.Proofs.HostType.Origin

/-! What is mapped to the fallback. Without overrides the structure of a
type decides whether the fallback takes part in its host type: either it
shows there, or the host type is the same for every fallback. -/
namespace ScriptBindings

namespace TypeExpr

/-- The types that have a host type of their own, down to their last
part. -/
inductive Supported : TypeExpr → Prop where
  | primitive {p : Primitive} (hSymbol : p ≠ .symbol) : Supported (.primitive p)
  | genericRef (name : String) : Supported (.genericRef name)
  | keyOf (name : String) : Supported (.keyOf (.genericRef name))
  | arrayOf {element : TypeExpr} (hElement : Supported element) : Supported (.arrayOf element)
  | promiseOf {result : TypeExpr} (hResult : Supported result) : Supported (.promiseOf result)
  | unionOf {members : List TypeExpr} {t : TypeExpr} (hSole : valued members = [t])
      (hMember : Supported t) : Supported (.unionOf members)

/-- The host type rests on a part that has none of its own. -/
inductive RestsOnFallback : TypeExpr → Prop where
  | fallsBack {t : TypeExpr} (hFallback : t.FallsBack) : RestsOnFallback t
  | arrayOf {element : TypeExpr} (hElement : RestsOnFallback element) :
      RestsOnFallback (.arrayOf element)
  | promiseOf {result : TypeExpr} (hResult : RestsOnFallback result) :
      RestsOnFallback (.promiseOf result)
  | unionOf {members : List TypeExpr} {t : TypeExpr} (hSole : valued members = [t])
      (hMember : RestsOnFallback t) : RestsOnFallback (.unionOf members)

variable {t : TypeExpr}

/-- A type that is mapped to the fallback by itself is not supported. -/
theorem FallsBack.not_supported (h : t.FallsBack) : ¬t.Supported := by
  intro hSupported
  cases h with
  | symbol =>
      cases hSupported with
      | primitive hSymbol => exact hSymbol rfl
  | reference text => cases hSupported
  | keyOf hTarget =>
      cases hSupported with
      | keyOf name => exact hTarget name rfl
  | unionOf hSeveral =>
      cases hSupported with
      | unionOf hSole _ => exact hSeveral _ hSole

/-- Nor is one whose host type is made of that of such a type. -/
theorem RestsOnFallback.not_supported (h : t.RestsOnFallback) : ¬t.Supported := by
  induction h with
  | fallsBack hFallback => exact hFallback.not_supported
  | arrayOf _ ih =>
      intro hSupported
      cases hSupported with
      | arrayOf hElement => exact ih hElement
  | promiseOf _ ih =>
      intro hSupported
      cases hSupported with
      | promiseOf hResult => exact ih hResult
  | unionOf hSole _ ih =>
      intro hSupported
      cases hSupported with
      | unionOf hSame hMember =>
          cases hSole.symm.trans hSame
          exact ih hMember

/-- Conversely a type that is not supported has the fallback somewhere in
its structure. -/
theorem restsOnFallback_of_not_supported (h : ¬t.Supported) : t.RestsOnFallback := by
  induction t using TypeExpr.induction with
  | primitive p =>
      by_cases hSymbol : p = .symbol
      · rw [hSymbol]
        exact .fallsBack .symbol
      · exact absurd (.primitive hSymbol) h
  | genericRef name => exact absurd (.genericRef name) h
  | reference text => exact .fallsBack (.reference text)
  | keyOf target _ =>
      refine .fallsBack (.keyOf fun name hTarget => h ?_)
      rw [hTarget]
      exact .keyOf name
  | arrayOf element ih => exact .arrayOf (ih fun hElement => h (.arrayOf hElement))
  | promiseOf result ih => exact .promiseOf (ih fun hResult => h (.promiseOf hResult))
  | unionOf members ih =>
      by_cases hSole : ∃ t, valued members = [t]
      · obtain ⟨t, hSole⟩ := hSole
        have hMember : ¬t.Supported := fun hMember => h (.unionOf hSole hMember)
        exact .unionOf hSole (ih t (mem_of_valued hSole) hMember)
      · exact .fallsBack (.unionOf (not_exists.mp hSole))

end TypeExpr

namespace TypeMap

open TypeExpr

variable {m first second : TypeMap} {t : TypeExpr}

/-- Of the primitive types only a symbol depends on the mapping, which has
the fallback for it. -/
theorem primitiveHost_of_ne_symbol (first second : TypeMap) {p : Primitive} (h : p ≠ .symbol) :
    first.primitiveHost p = second.primitiveHost p := by
  cases p with
  | symbol => exact absurd rfl h
  | _ => rfl

/-- Two mappings without overrides agree on supported types, whatever they
fall back to. -/
theorem host_eq_of_supported (hFirst : first.overrides = .empty)
    (hSecond : second.overrides = .empty) (h : t.Supported) : first.host t = second.host t := by
  have hBare := override?_of_empty hFirst
  have hElsewhere := override?_of_empty hSecond
  induction h with
  | primitive hSymbol =>
      rw [host_primitive (hBare _), host_primitive (hElsewhere _),
        primitiveHost_of_ne_symbol first second hSymbol]
  | genericRef name => rfl
  | keyOf name =>
      rw [host_keyOf (hBare _), host_keyOf (hElsewhere _)]
      rfl
  | arrayOf _ ih => rw [host_arrayOf (hBare _), host_arrayOf (hElsewhere _), ih]
  | promiseOf _ ih => rw [host_promiseOf (hBare _), host_promiseOf (hElsewhere _), ih]
  | unionOf hSole _ ih =>
      rw [host_unionOf_of_sole (hBare _) hSole, host_unionOf_of_sole (hElsewhere _) hSole, ih]
      rfl

/-- A fallback other than `void` is not lost on the way out: no task and no
union takes it for the host type without values. -/
theorem mentions_fallback (hEmpty : m.overrides = .empty) (hVoid : m.fallback ≠ voidType)
    (h : t.RestsOnFallback) : Mentions (fun _ => false) m.fallback (m.host t) := by
  have hBare := override?_of_empty hEmpty
  have hMarks : SparesMarks fun _ => false := fun _ _ => rfl
  induction h with
  | fallsBack hFallback =>
      rw [host_of_fallsBack (hBare _) hFallback]
      exact ⟨hVoid, Text.standsIn_refl _⟩
  | arrayOf _ ih =>
      rw [host_arrayOf (hBare _)]
      exact ih.array hMarks
  | promiseOf _ ih =>
      rw [host_promiseOf (hBare _)]
      exact ih.task hMarks
  | unionOf hSole _ ih =>
      rw [host_unionOf_of_sole (hBare _) hSole, unionHost_of_ne_void ih.ne_void]
      exact ih.nullable hMarks

/-- Without overrides, the host type of a supported type is the same for
every fallback, and that of any other type contains the fallback, unless
that is `void`. -/
theorem host_shows_fallback (t : TypeExpr) :
    (t.Supported → ∀ first second : TypeMap, first.overrides = .empty →
      second.overrides = .empty → first.host t = second.host t) ∧
    (¬t.Supported → ∀ m : TypeMap, m.overrides = .empty → m.fallback ≠ voidType →
      m.fallback.toList <:+: (m.host t).toList) := by
  constructor
  · intro h first second hFirst hSecond
    exact host_eq_of_supported hFirst hSecond h
  · intro h m hEmpty hVoid
    exact (mentions_fallback hEmpty hVoid (restsOnFallback_of_not_supported h)).standsIn.isInfix

/-- Nothing in `Promise<(keyof T | null)[]>` falls back, and a member of the
union in `Promise<(symbol | null)[]>` does. -/
theorem host_shows_fallback_of_unions :
    let keys : TypeExpr := .promiseOf (.arrayOf
      (.unionOf [.keyOf (.genericRef "T"), .primitive .null]))
    let symbols : TypeExpr := .promiseOf (.arrayOf
      (.unionOf [.primitive .symbol, .primitive .null]))
    (∀ fallback, TypeMap.host ⟨.empty, fallback⟩ keys = "ValueTask<IKeyOf<T>?[]>") ∧
      ∀ fallback, fallback ≠ voidType →
        fallback.toList <:+: (TypeMap.host ⟨.empty, fallback⟩ symbols).toList := by
  intro keys symbols
  have hKeys : keys.Supported := .promiseOf (.arrayOf (.unionOf rfl (.keyOf "T")))
  have hSymbols : symbols.RestsOnFallback :=
    .promiseOf (.arrayOf (.unionOf rfl (.fallsBack .symbol)))
  constructor
  · intro fallback
    have hSame : TypeMap.host ⟨.empty, fallback⟩ keys = TypeMap.host ⟨.empty, "object"⟩ keys :=
      (host_shows_fallback keys).1 hKeys _ _ rfl rfl
    exact hSame.trans (by decide +kernel)
  · intro fallback hVoid
    exact (host_shows_fallback symbols).2 hSymbols.not_supported ⟨.empty, fallback⟩ rfl hVoid

end TypeMap

end ScriptBindings
