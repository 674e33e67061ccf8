import ScriptBindings.Proofs.HostType.Structure
import ScriptBindings.Proofs.Text.Inclusion
import ScriptBindings.Proofs.Text.Naming
import ScriptBindings.Proofs.TypeExpr.Scoped

/-! Where `void` stands in host types. The host language knows it as a
result only, never as the element of an array, before a `?` or as the
argument of a task. A task without a result and a union with `void` are
mapped with care for this; an array is not, and neither is an optional
parameter. -/
namespace ScriptBindings

open Text

/-! ### Host types as texts -/

/-- Uses of `void` that the host language does not know. -/
def voidMisuses : List String :=
  ["void[]", "void?", "<void>"]

def MisusesVoid (host : List Char) : Prop :=
  ∃ use ∈ voidMisuses, use.toList <:+: host

instance (host : List Char) : Decidable (MisusesVoid host) :=
  inferInstanceAs (Decidable (∃ use ∈ voidMisuses, use.toList <:+: host))

variable {host : List Char}

/-- The misuses as they stand in a host type, each with its marks at the
end. In this form a suffix can be taken off them. -/
theorem misusesVoid_iff :
    MisusesVoid host ↔ "void[".toList ++ [']'] <:+: host ∨
      voidType.toList ++ ['?'] <:+: host ∨ "<void".toList ++ ['>'] <:+: host := by
  simp [MisusesVoid, voidMisuses, voidType]

/-- The last character of a host type completes a misuse, or there was one
before it. -/
theorem misusesVoid_concat_iff {c : Char} :
    MisusesVoid (host ++ [c]) ↔ MisusesVoid host ∨ (']' = c ∧ "void[".toList <:+ host) ∨
      ('?' = c ∧ voidType.toList <:+ host) ∨ ('>' = c ∧ "<void".toList <:+ host) := by
  rw [misusesVoid_iff, misusesVoid_iff, concat_infix_concat_iff, concat_infix_concat_iff,
    concat_infix_concat_iff]
  simp only [or_assoc, or_comm, or_left_comm]

/-- Text in front of a type argument adds to its misuses only the argument
`void`. -/
theorem misusesVoid_append_iff {front : List Char} (hVoid : 'v' ∉ front) (hOpen : '<' ∉ front) :
    MisusesVoid (front ++ '<' :: host) ↔ MisusesVoid host ∨ "void>".toList <+: host := by
  have hLetter {rest : List Char} :
      'v' :: rest <:+: front ++ '<' :: host ↔ 'v' :: rest <:+: host := by
    rw [cons_infix_append_iff hVoid]
    exact cons_infix_append_iff (show 'v' ∉ ['<'] by decide)
  have hArray : "void[".toList ++ [']'] <:+: front ++ '<' :: host ↔
      "void[".toList ++ [']'] <:+: host := hLetter
  have hMark : voidType.toList ++ ['?'] <:+: front ++ '<' :: host ↔
      voidType.toList ++ ['?'] <:+: host := hLetter
  have hArgument : "<void".toList ++ ['>'] <:+: front ++ '<' :: host ↔
      "<void".toList ++ ['>'] <:+: host ∨ "void>".toList <+: host := by
    rw [show "<void".toList ++ ['>'] = '<' :: "void>".toList from rfl, cons_infix_append_iff hOpen,
      List.infix_cons_iff, List.cons_prefix_cons, and_iff_right rfl, or_comm]
  rw [misusesVoid_iff, misusesVoid_iff, hArray, hMark, hArgument, or_assoc, or_assoc]

/-- How `void` stands in a host type: whether it is `void`, ends with it,
and misuses it. Nothing that is put around the host type makes another
`void` of its first and last characters. -/
structure ShowsVoid (host : List Char) (alone ending misuse : Prop) : Prop where
  alone : host = voidType.toList ↔ alone
  ending : voidType.toList <:+ host ↔ ending
  misuse : MisusesVoid host ↔ misuse
  unmarked : host ≠ voidType.toList ++ ['?']
  openFront : ¬"void>".toList <+: host
  openBack : ¬"<void".toList <:+ host

namespace ShowsVoid

variable {alone ending misuse : Prop}

theorem congr {alone' ending' misuse' : Prop} (h : ShowsVoid host alone ending misuse)
    (hAlone : alone ↔ alone') (hEnding : ending ↔ ending') (hMisuse : misuse ↔ misuse') :
    ShowsVoid host alone' ending' misuse' :=
  ⟨h.alone.trans hAlone, h.ending.trans hEnding, h.misuse.trans hMisuse, h.unmarked, h.openFront,
    h.openBack⟩

theorem void : ShowsVoid voidType.toList True True False := by
  constructor <;> decide

/-- A text without the word `void` shows none. -/
theorem of_free (h : ¬voidType.toList <:+: host) : ShowsVoid host False False False := by
  have hOut {text : List Char} (hText : text <:+: host) (hWord : voidType.toList <:+: text) :
      False :=
    h (hWord.trans hText)
  refine ⟨iff_false_intro ?_, iff_false_intro ?_, iff_false_intro ?_, ?_, ?_, ?_⟩
  · rintro rfl
    exact h (List.infix_refl _)
  · exact fun hEnding => h hEnding.isInfix
  · rintro ⟨use, hUse, hInfix⟩
    simp only [voidMisuses, List.mem_cons, List.not_mem_nil, or_false] at hUse
    rcases hUse with rfl | rfl | rfl <;> exact hOut hInfix (by decide)
  · rintro rfl
    exact h (by decide)
  · exact fun hFront => hOut hFront.isInfix (by decide)
  · exact fun hBack => hOut hBack.isInfix (by decide)

/-- A name other than `void` may end with the word, and that is all. -/
theorem of_isName (hName : isName host = true) (hVoid : host ≠ voidType.toList) :
    ShowsVoid host False (voidType.toList <:+ host) False := by
  have hOut {text : List Char} {c : Char} (hText : text <:+: host) (hMem : c ∈ text)
      (hChar : isNameChar c = false) : False :=
    not_mem_of_isName hName hChar (hText.subset hMem)
  refine ⟨iff_false_intro hVoid, Iff.rfl, iff_false_intro ?_, ?_, ?_, ?_⟩
  · intro hMisuse
    rcases misusesVoid_iff.mp hMisuse with hArray | hMark | hArgument
    · exact hOut (c := ']') hArray (by decide) (by decide)
    · exact hOut (c := '?') hMark (by decide) (by decide)
    · exact hOut (c := '>') hArgument (by decide) (by decide)
  · intro hSame
    have hMark : '?' ∈ host := hSame ▸ (by decide : '?' ∈ voidType.toList ++ ['?'])
    exact not_mem_of_isName hName (by decide) hMark
  · exact fun hFront => hOut (c := '>') hFront.isInfix (by decide) (by decide)
  · exact fun hBack => hOut (c := '<') hBack.isInfix (by decide) (by decide)

/-- A character behind a host type, neither a letter nor a bracket that
closes arguments. -/
theorem concat (h : ShowsVoid host alone ending misuse) {c : Char} (hLetter : 'd' ≠ c)
    (hClose : '>' ≠ c) (hMark : c = '?' → ¬alone) :
    ShowsVoid (host ++ [c]) False False
      (misuse ∨ (']' = c ∧ "void[".toList <:+ host) ∨ ('?' = c ∧ ending)) := by
  have hEnding (front : List Char) : ¬front ++ ['d'] <:+ host ++ [c] := fun hSuffix =>
    hLetter (concat_suffix_concat_iff.mp hSuffix).1
  refine ⟨iff_false_intro ?_, iff_false_intro (hEnding "voi".toList), ?_, ?_, ?_,
    hEnding "<voi".toList⟩
  · intro hSame
    exact hEnding "voi".toList (by rw [hSame]; exact List.suffix_refl _)
  · rw [misusesVoid_concat_iff, h.misuse, h.ending]
    simp only [hClose, false_and, or_false]
  · intro hSame
    obtain ⟨hHost, hLast⟩ := List.append_inj' hSame rfl
    exact hMark (List.cons.inj hLast).1 (h.alone.mp hHost)
  · rw [List.prefix_concat_iff, not_or]
    refine ⟨fun hSame => ?_, h.openFront⟩
    have hSplit : voidType.toList ++ ['>'] = host ++ [c] := hSame
    obtain ⟨-, hLast⟩ := List.append_inj' hSplit rfl
    exact hClose (List.cons.inj hLast).1

/-- An array of `void` is a misuse. Otherwise its marks add none. -/
theorem array (h : ShowsVoid host alone ending misuse) :
    ShowsVoid (host ++ "[]".toList) False False (ending ∨ misuse) := by
  have hOpen := h.concat (c := '[') (by decide) (by decide) fun hMark => absurd hMark (by decide)
  have hBoth := hOpen.concat (c := ']') (by decide) (by decide) fun _ => id
  have hBracket : "void[".toList <:+ host ++ ['['] ↔ ending := by
    rw [show "void[".toList = voidType.toList ++ ['['] from rfl, concat_suffix_concat_iff, h.ending,
      and_iff_right rfl]
  rw [List.append_assoc] at hBoth
  refine hBoth.congr Iff.rfl Iff.rfl ?_
  rw [hBracket]
  simp [or_comm]

theorem mark (h : ShowsVoid host False ending misuse) :
    ShowsVoid (host ++ ['?']) False False (ending ∨ misuse) := by
  refine (h.concat (c := '?') (by decide) (by decide) fun _ => id).congr Iff.rfl Iff.rfl ?_
  simp [or_comm]

/-- A host type as an argument, behind a name without the characters that
matter. -/
theorem applied (h : ShowsVoid host False ending misuse) (front : List Char) (hFront : front ≠ [])
    (hVoid : 'v' ∉ front) (hOpen : '<' ∉ front) :
    ShowsVoid (front ++ '<' :: host ++ ['>']) False False misuse := by
  have hEnding (text : List Char) {c : Char} (hc : c ≠ '>') :
      ¬text ++ [c] <:+ front ++ '<' :: host ++ ['>'] := fun hSuffix =>
    hc (concat_suffix_concat_iff.mp hSuffix).1
  have hOuter : ¬"<void".toList <:+ front ++ '<' :: host := by
    rw [show "<void".toList = '<' :: voidType.toList from rfl, cons_suffix_append_iff hOpen,
      List.suffix_cons_iff, not_or]
    exact ⟨fun hSame => h.alone.mp (List.cons.inj hSame).2.symm, h.openBack⟩
  refine ⟨iff_false_intro ?_, iff_false_intro (hEnding "voi".toList (by decide)), ?_, ?_,
    ?_, hEnding "<voi".toList (by decide)⟩
  · intro hSame
    exact hEnding "voi".toList (c := 'd') (by decide) (by rw [hSame]; exact List.suffix_refl _)
  · rw [misusesVoid_concat_iff, misusesVoid_append_iff hVoid hOpen, h.misuse,
      or_iff_left h.openFront]
    simp only [hOuter, and_false, or_false, Char.reduceEq, false_and]
  · intro hSame
    exact hEnding voidType.toList (c := '?') (by decide) (by rw [hSame])
  · rw [List.append_assoc]
    exact not_cons_prefix_append hFront hVoid

end ShowsVoid

/-! ### Types without values -/

namespace TypeExpr

/-- The types without values, whose host type is `void`. -/
inductive IsVoid : TypeExpr → Prop where
  | void : IsVoid (.primitive .void)
  | undefined : IsVoid (.primitive .undefined)
  | never : IsVoid (.primitive .never)
  | unionOf {members : List TypeExpr} {t : TypeExpr} (hSole : valued members = [t])
      (hVoid : IsVoid t) : IsVoid (.unionOf members)

/-- The types whose host type ends with the word `void`. -/
inductive EndsInVoid : TypeExpr → Prop where
  | alone {t : TypeExpr} (hVoid : IsVoid t) : EndsInVoid t
  | genericRef {name : String} (hName : voidType.toList <:+ name.toList) :
      EndsInVoid (.genericRef name)

/-- The types whose host type misuses `void`: arrays of types without
values, and what is made of them. The text of a type parameter that ends
with the word looks the same. -/
inductive WrapsVoid : TypeExpr → Prop where
  | element {t : TypeExpr} (hElement : EndsInVoid t) : WrapsVoid (.arrayOf t)
  | arrayOf {t : TypeExpr} (hElement : WrapsVoid t) : WrapsVoid (.arrayOf t)
  | promiseOf {t : TypeExpr} (hResult : WrapsVoid t) : WrapsVoid (.promiseOf t)
  | unionOf {members : List TypeExpr} {t : TypeExpr} (hSole : valued members = [t])
      (hMember : WrapsVoid t) : WrapsVoid (.unionOf members)
  | marked {members : List TypeExpr} {name : String} (hSole : valued members = [.genericRef name])
      (hName : voidType.toList <:+ name.toList) : WrapsVoid (.unionOf members)

variable {t : TypeExpr} {members : List TypeExpr} {name : String}

/-- A union with one member that carries a value is void if the member
is. -/
theorem isVoid_unionOf_iff (hSole : valued members = [t]) : IsVoid (.unionOf members) ↔ t.IsVoid := by
  constructor
  · intro h
    cases h with
    | unionOf hOther hVoid =>
        cases hSole.symm.trans hOther
        exact hVoid
  · exact .unionOf hSole

theorem not_isVoid_genericRef : ¬IsVoid (.genericRef name) := by
  rintro ⟨⟩

/-- A type parameter is mapped to its own name, and the name may end like
the keyword. -/
theorem endsInVoid_genericRef_iff :
    EndsInVoid (.genericRef name) ↔ voidType.toList <:+ name.toList := by
  constructor
  · intro h
    cases h with
    | alone hVoid => exact absurd hVoid not_isVoid_genericRef
    | genericRef hName => exact hName
  · exact .genericRef

/-- A union that is not void is nullable, and so the mark stands at its
end. -/
theorem not_endsInVoid_unionOf (hVoid : ¬IsVoid (.unionOf members)) :
    ¬EndsInVoid (.unionOf members) := by
  intro h
  cases h with
  | alone hAlone => exact hVoid hAlone

theorem not_endsInVoid_arrayOf : ¬EndsInVoid (.arrayOf t) := by
  rintro ⟨⟨⟩⟩

theorem not_endsInVoid_promiseOf : ¬EndsInVoid (.promiseOf t) := by
  rintro ⟨⟨⟩⟩

theorem not_endsInVoid_keyOf : ¬EndsInVoid (.keyOf t) := by
  rintro ⟨⟨⟩⟩

/-- An array misuses `void` for its element or does so inside of it. -/
theorem wrapsVoid_arrayOf_iff : WrapsVoid (.arrayOf t) ↔ t.EndsInVoid ∨ t.WrapsVoid := by
  constructor
  · intro h
    cases h with
    | element hElement => exact Or.inl hElement
    | arrayOf hElement => exact Or.inr hElement
  · rintro (hElement | hElement)
    · exact .element hElement
    · exact .arrayOf hElement

theorem not_wrapsVoid_primitive {p : Primitive} : ¬WrapsVoid (.primitive p) := by
  rintro ⟨⟩

theorem not_wrapsVoid_keyOf : ¬WrapsVoid (.keyOf t) := by
  rintro ⟨⟩

theorem not_wrapsVoid_genericRef : ¬WrapsVoid (.genericRef name) := by
  rintro ⟨⟩

/-- A promise of nothing is a task without a result. So only what is inside
of the result counts. -/
theorem wrapsVoid_promiseOf_iff : WrapsVoid (.promiseOf t) ↔ t.WrapsVoid := by
  constructor
  · intro h
    cases h with
    | promiseOf hResult => exact hResult
  · exact .promiseOf

theorem wrapsVoid_unionOf_iff (hSole : valued members = [t]) (hVoid : ¬t.IsVoid) :
    WrapsVoid (.unionOf members) ↔ t.EndsInVoid ∨ t.WrapsVoid := by
  constructor
  · intro h
    cases h with
    | unionOf hOther hMember =>
        cases hSole.symm.trans hOther
        exact Or.inr hMember
    | marked hOther hName =>
        cases hSole.symm.trans hOther
        exact Or.inl (.genericRef hName)
  · rintro (hEnding | hMember)
    · cases hEnding with
      | alone hAlone => exact absurd hAlone hVoid
      | genericRef hName => exact .marked hSole hName
    · exact .unionOf hSole hMember

/-- A type without values has nothing around it. -/
theorem IsVoid.not_wrapsVoid (h : t.IsVoid) : ¬t.WrapsVoid := by
  induction h with
  | void | undefined | never => exact not_wrapsVoid_primitive
  | unionOf hSole hVoid ih =>
      intro hWraps
      cases hWraps with
      | unionOf hOther hMember =>
          cases hSole.symm.trans hOther
          exact ih hMember
      | marked hOther _ =>
          cases hSole.symm.trans hOther
          cases hVoid

/-! A type that falls back is none of these. -/

/-- A type that falls back has values. -/
theorem FallsBack.not_isVoid (h : t.FallsBack) : ¬t.IsVoid := by
  intro hVoid
  cases h with
  | symbol | reference | keyOf => cases hVoid
  | unionOf hSeveral =>
      cases hVoid with
      | unionOf hSole _ => exact hSeveral _ hSole

/-- Its host type is the fallback, and not made with `void`. -/
theorem FallsBack.not_endsInVoid (h : t.FallsBack) : ¬t.EndsInVoid := by
  intro hEnding
  cases hEnding with
  | alone hVoid => exact h.not_isVoid hVoid
  | genericRef _ => cases h

/-- Nor is `void` misused for it. -/
theorem FallsBack.not_wrapsVoid (h : t.FallsBack) : ¬t.WrapsVoid := by
  intro hWraps
  cases h with
  | symbol | reference | keyOf => cases hWraps
  | unionOf hSeveral =>
      cases hWraps with
      | unionOf hSole _ => exact hSeveral _ hSole
      | marked hSole _ => exact hSeveral _ hSole

end TypeExpr

namespace TypeMap

open TypeExpr

variable {m : TypeMap} {generics : List String} {t : TypeExpr}

/-- How `void` stands in the host type of a type that was read. -/
def ShowsVoidAs (host : String) (t : TypeExpr) : Prop :=
  ShowsVoid host.toList t.IsVoid t.EndsInVoid t.WrapsVoid

/-- A host type that shows no `void` at its ends belongs to a type with
values. -/
theorem showsVoidAs_of {host : String} {misuse : Prop}
    (h : ShowsVoid host.toList False False misuse) (hEnding : ¬t.EndsInVoid)
    (hWraps : misuse ↔ t.WrapsVoid) : ShowsVoidAs host t :=
  h.congr (iff_of_false id fun hVoid => hEnding (.alone hVoid)) (iff_of_false id hEnding) hWraps

/-- A host type in which the keyword does not occur shows nothing of it. -/
theorem showsVoidAs_of_free {host : String} (h : ¬voidType.toList <:+: host.toList)
    (hEnding : ¬t.EndsInVoid) (hWraps : ¬t.WrapsVoid) : ShowsVoidAs host t :=
  showsVoidAs_of (.of_free h) hEnding (iff_of_false id hWraps)

/-- The host type of a type without values is the keyword itself. -/
theorem showsVoidAs_of_isVoid (hVoid : t.IsVoid) : ShowsVoidAs voidType t :=
  ShowsVoid.void.congr (iff_of_true trivial hVoid) (iff_of_true trivial (.alone hVoid))
    (iff_of_false id hVoid.not_wrapsVoid)

/-- Making a host type nullable adds a misuse where the keyword stands at
its end. -/
theorem showsVoid_nullable {host : String} {ending misuse : Prop}
    (h : ShowsVoid host.toList False ending misuse) :
    ShowsVoid (nullable host).toList False False (ending ∨ misuse) := by
  unfold nullable endsWith
  split
  · next hMarked =>
      obtain ⟨front, hHost⟩ := List.isSuffixOf_iff_suffix.mp hMarked
      have hEnding : ¬ending := by
        rw [← h.ending, ← hHost]
        intro hSuffix
        have hSplit : "voi".toList ++ ['d'] <:+ front ++ ['?'] := hSuffix
        exact absurd (concat_suffix_concat_iff.mp hSplit).1 (by decide)
      exact h.congr Iff.rfl (iff_of_false hEnding id) (or_iff_right hEnding).symm
  · rw [String.toList_append]
    exact h.mark

/-- A task without a result has no argument. -/
theorem showsVoidAs_taskOf {host : String} (h : ShowsVoidAs host t) :
    ShowsVoidAs (taskOf host) (.promiseOf t) := by
  unfold taskOf
  split
  · next hVoid =>
      have hResult : t.IsVoid := h.alone.mp (by rw [beq_iff_eq.mp hVoid])
      exact showsVoidAs_of_free (by decide) not_endsInVoid_promiseOf
        (wrapsVoid_promiseOf_iff.not.mpr hResult.not_wrapsVoid)
  · next hValue =>
      rw [beq_iff_eq, ← String.toList_inj] at hValue
      have hResult := h.congr (iff_false_intro (h.alone.not.mp hValue)) Iff.rfl Iff.rfl
      refine showsVoidAs_of ?_ not_endsInVoid_promiseOf wrapsVoid_promiseOf_iff.symm
      rw [String.toList_append, String.toList_append]
      exact hResult.applied "ValueTask".toList (by decide) (by decide) (by decide)

variable (hEmpty : m.overrides = .empty) (hFallback : ¬voidType.toList <:+: m.fallback.toList)

include hEmpty hFallback

/-- For the fallback this rests on the assumption that it does not have the
keyword in it. -/
theorem showsVoidAs_of_fallsBack (h : t.FallsBack) : ShowsVoidAs (m.host t) t := by
  rw [host_of_fallsBack (override?_of_empty hEmpty _) h]
  exact showsVoidAs_of_free hFallback h.not_endsInVoid h.not_wrapsVoid

/-- Three of the primitive types are void, and no other one has the keyword
in its host type. -/
theorem showsVoidAs_primitive (p : Primitive) :
    ShowsVoidAs (m.host (.primitive p)) (.primitive p) := by
  cases p with
  | symbol => exact showsVoidAs_of_fallsBack hEmpty hFallback .symbol
  | void | undefined | never =>
      rw [host_primitive (override?_of_empty hEmpty _)]
      exact showsVoidAs_of_isVoid (by constructor)
  | string | number | boolean | bigint | null | any | unknown | object =>
      rw [host_primitive (override?_of_empty hEmpty _)]
      refine showsVoidAs_of_free ?_ (by rintro ⟨⟨⟩⟩) not_wrapsVoid_primitive
      rw [primitiveHost]
      decide

/-- A union shows the keyword as the member that gives its host type does,
with the mark behind it. -/
theorem showsVoidAs_unionOf {members : List TypeExpr}
    (h : ∀ t ∈ members, ShowsVoidAs (m.host t) t) :
    ShowsVoidAs (m.host (.unionOf members)) (.unionOf members) := by
  by_cases hSole : ∃ t, valued members = [t]
  · obtain ⟨t, hSole⟩ := hSole
    have hShows := h t (mem_of_valued hSole)
    rw [host_unionOf_of_sole (override?_of_empty hEmpty _) hSole, unionHost]
    split
    · next hHost =>
        rw [beq_iff_eq] at hHost
        rw [hHost] at hShows ⊢
        exact showsVoidAs_of_isVoid (.unionOf hSole (hShows.alone.mp rfl))
    · next hHost =>
        rw [beq_iff_eq, ← String.toList_inj] at hHost
        have hVoid : ¬t.IsVoid := hShows.alone.not.mp hHost
        have hUnion : ¬IsVoid (.unionOf members) := (isVoid_unionOf_iff hSole).not.mpr hVoid
        refine showsVoidAs_of (showsVoid_nullable ?_) (not_endsInVoid_unionOf hUnion)
          (wrapsVoid_unionOf_iff hSole hVoid).symm
        exact hShows.congr (iff_false_intro hVoid) Iff.rfl Iff.rfl
  · exact showsVoidAs_of_fallsBack hEmpty hFallback (.unionOf (not_exists.mp hSole))

/-- By induction on the type: how `void` stands in its host type is told by
the type alone. -/
theorem showsVoidAs_host (h : Scoped generics t) : ShowsVoidAs (m.host t) t := by
  have hName {name : String} (hName : isName name.toList = true)
      (hKeyword : Primitive.ofKeyword? name = none) :
      ShowsVoid name.toList False (voidType.toList <:+ name.toList) False := by
    refine .of_isName hName fun hSame => ?_
    rw [String.toList_inj.mp hSame] at hKeyword
    cases hKeyword
  -- Only what was read is free of a type parameter that is named `void` or has marks in its name.
  induction h with
  | primitive p => exact showsVoidAs_primitive hEmpty hFallback p
  | reference text => exact showsVoidAs_of_fallsBack hEmpty hFallback (.reference text)
  | genericRef hWord hKeyword _ =>
      rw [host]
      exact (hName hWord hKeyword).congr (iff_of_false id not_isVoid_genericRef)
        endsInVoid_genericRef_iff.symm (iff_of_false id not_wrapsVoid_genericRef)
  | arrayOf _ ih =>
      rw [host_arrayOf (override?_of_empty hEmpty _)]
      refine showsVoidAs_of ?_ not_endsInVoid_arrayOf wrapsVoid_arrayOf_iff.symm
      rw [String.toList_append]
      exact ih.array
  | promiseOf _ ih =>
      rw [host_promiseOf (override?_of_empty hEmpty _)]
      exact showsVoidAs_taskOf ih
  | keyOf hTarget _ =>
      cases hTarget with
      | genericRef hWord hKeyword _ =>
          rw [host_keyOf (override?_of_empty hEmpty _)]
          refine showsVoidAs_of ?_ not_endsInVoid_keyOf (iff_of_false id not_wrapsVoid_keyOf)
          rw [keyOfHost, String.toList_append, String.toList_append, String.toList_append]
          exact (hName hWord hKeyword).applied keyOfInterface.toList (by decide)
            (by decide) (by decide)
      | primitive | reference | arrayOf | promiseOf | keyOf | unionOf =>
          exact showsVoidAs_of_fallsBack hEmpty hFallback (.keyOf (by rintro _ ⟨⟩))
  | unionOf _ ih => exact showsVoidAs_unionOf hEmpty hFallback ih

end TypeMap

end ScriptBindings
