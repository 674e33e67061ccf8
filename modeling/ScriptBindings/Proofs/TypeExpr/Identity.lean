import ScriptBindings.Proofs.TypeExpr.Legible

/-! Which types share a canonical text, and with it a key of the override
table. The outline of a text is what it shows of the outermost form of a
type, and the parts of the type are found in it. By it two legible types
with one canonical text are equal, part by part. -/
namespace ScriptBindings.TypeExpr

open Text Outcomes ScriptBindings.Bracket

/-- What a text shows of the type that it is the text of. -/
inductive Outline where
  | function
  | union (members : List (List Char))
  | member (form : Form)

/-- The outline of a text, told as the readers of types tell it. -/
def Outline.of (text : List Char) : Except Bracket.Fault Outline := do
  if ← hasArrow text then return .function
  match ← memberTexts text with
  | [_] => return .member (← Form.of text)
  | members => return .union members

/-- A legible type with this outline, in which the texts of its parts
stand. -/
inductive Outline.Shows (generics : List String) : Outline → TypeExpr → Prop where
  | leaf {form : Form} {t : TypeExpr} (hForm : form.IsLeaf)
      (hReads : parseMember generics t.canonical.toList = .ok t) : Shows generics (.member form) t
  | function (text : String) : Shows generics .function (.reference text)
  | arrayOf {element : TypeExpr} (hElement : Legible generics element)
      (hFunction : element.isFunction = false) :
      Shows generics (.member (.array element.operandText)) (.arrayOf element)
  | promiseOf {result : TypeExpr} (hResult : Legible generics result) :
      Shows generics (.member (.applied "Promise".toList result.canonical.toList))
        (.promiseOf result)
  | keyOf {target : TypeExpr} (hTarget : Legible generics target)
      (hFunction : target.isFunction = false) :
      Shows generics (.member (.keyOf target.operandText)) (.keyOf target)
  | unionOf {members : List TypeExpr} (hMembers : ∀ t ∈ members, Legible generics t) :
      Shows generics (.union (members.map fun t => t.canonical.toList)) (.unionOf members)

variable {generics : List String} {text : List Char} {form : Form} {s t : TypeExpr}
  {members : List TypeExpr}

/-! ### Outlines of canonical texts -/

/-- The outline of a text that is one member is the form of this member,
which is read off the text without parsing its parts. -/
theorem Outline.of_member (hText : MemberText text) (hForm : Form.of text = .ok form) :
    Outline.of text = .ok (.member form) := by
  rw [Outline.of, hText.hasArrow_eq, hText.memberTexts_eq, hForm]
  rfl

/-- A text with an arrow outside of its brackets has the outline of a
function, whatever else is in it. -/
theorem FunctionText.outline (h : FunctionText text) : Outline.of text = .ok .function := by
  rw [Outline.of, h.hasArrow_eq]
  rfl

/-- The text of an array shows that it is one, and what its element is
written like. -/
theorem ReadsDistinct.outline_arrayOf (h : ReadsDistinct generics t)
    (hFunction : t.isFunction = false) :
    Outline.of (TypeExpr.arrayOf t).canonical.toList = .ok (.member (.array t.operandText)) := by
  obtain ⟨hText, -, hReadonly, hKeyOf⟩ := h.operand_reads hFunction
  rw [canonical_arrayOf]
  exact Outline.of_member hText.squares
    (form_array hText.squares.balanced hText.trimmed hText.ne_nil hReadonly hKeyOf)

theorem outline_promiseOf (hBalanced : Balanced t.canonical.toList)
    (hLast : t.canonical.toList.getLast? ≠ some '=') :
    Outline.of (promiseOf t).canonical.toList =
      .ok (.member (.applied "Promise".toList t.canonical.toList)) := by
  rw [canonical_promiseOf]
  exact Outline.of_member (.applied rfl hBalanced hLast) (form_applied rfl hBalanced hLast)

theorem ReadsDistinct.outline_keyOf (h : ReadsDistinct generics t)
    (hFunction : t.isFunction = false) :
    Outline.of (TypeExpr.keyOf t).canonical.toList = .ok (.member (.keyOf t.operandText)) := by
  obtain ⟨hText, -, -, -⟩ := h.operand_reads hFunction
  rw [canonical_keyOf]
  exact Outline.of_member hText.keyOf (form_keyOf hText.trimmed)

/-- The text of a union shows its members. For this they must be neither
unions nor functions, whose texts would run into those beside them. -/
theorem outline_unionOf (h : ∀ t ∈ members, ReadsDistinct generics t)
    (hFlat : ∀ t ∈ members, t.isUnion = false) (hFunction : ∀ t ∈ members, t.isFunction = false)
    (hTwo : 2 ≤ members.length) :
    Outline.of (unionOf members).canonical.toList =
      .ok (.union (members.map fun t => t.canonical.toList)) := by
  have hMember := memberText_of_flat h hFlat hFunction
  match members with
  | first :: second :: rest =>
      rw [canonical_unionOf, Outline.of, hasArrow_joined hMember,
        memberTexts_joined hMember (by simp)]
      rfl

/-- The outline of the canonical text shows the type. -/
theorem Legible.exists_outline (h : Legible generics t) :
    ∃ outline, Outline.of t.canonical.toList = .ok outline ∧ outline.Shows generics t := by
  cases h with
  | leaf hLeaf =>
      obtain ⟨form, hForm, hIsLeaf⟩ := hLeaf.form
      exact ⟨_, Outline.of_member hLeaf.text hForm, .leaf hIsLeaf hLeaf.reads⟩
  | @function text hFunction => exact ⟨_, hFunction.outline, .function text⟩
  | arrayOf hElement hFunction =>
      exact ⟨_, hElement.readsDistinct.outline_arrayOf hFunction, .arrayOf hElement hFunction⟩
  | promiseOf hResult hBalanced hLast =>
      exact ⟨_, outline_promiseOf hBalanced hLast, .promiseOf hResult⟩
  | keyOf hTarget hFunction =>
      exact ⟨_, hTarget.readsDistinct.outline_keyOf hFunction, .keyOf hTarget hFunction⟩
  | unionOf hMembers hFlat hFunction hTwo =>
      have hReads := fun t ht => (hMembers t ht).readsDistinct
      exact ⟨_, outline_unionOf hReads hFlat hFunction hTwo, .unionOf hMembers⟩

/-! ### Types with one canonical text -/

/-- Lists are equal if what their elements are mapped to tells them
apart. -/
theorem eq_of_map_eq {α β : Type} {f : α → β} {xs ys : List α}
    (h : ∀ x ∈ xs, ∀ y ∈ ys, f x = f y → x = y) (hSame : xs.map f = ys.map f) : xs = ys := by
  induction xs generalizing ys with
  | nil => exact (List.map_eq_nil_iff.mp hSame.symm).symm
  | cons x rest ih =>
      cases ys with
      | nil => cases hSame
      | cons y later =>
          obtain ⟨hHead, hTail⟩ := List.cons.inj hSame
          rw [h x List.mem_cons_self y List.mem_cons_self hHead,
            ih (fun a ha b hb => h a (List.mem_cons_of_mem _ ha) b (List.mem_cons_of_mem _ hb)) hTail]

/-- No two legible types share a canonical text. -/
theorem Legible.canonical_injective (h : Legible generics s) (hOther : Legible generics t)
    (hSame : s.canonical = t.canonical) : s = t := by
  induction h generalizing t with
  | @leaf s hLeaf =>
      obtain ⟨outline, hOutline, hShows⟩ := hOther.exists_outline
      obtain ⟨form, hForm, hIsLeaf⟩ := hLeaf.form
      rw [← hSame, Outline.of_member hLeaf.text hForm] at hOutline
      cases hOutline
      cases hShows with
      | leaf _ hReads =>
          have hBoth := hLeaf.reads
          rw [hSame, hReads] at hBoth
          exact (Except.ok.inj hBoth).symm
      | arrayOf | keyOf => exact hIsLeaf.elim
      | promiseOf => exact absurd rfl hIsLeaf.1
  | @function text hFunction =>
      obtain ⟨outline, hOutline, hShows⟩ := hOther.exists_outline
      rw [← hSame, canonical, hFunction.outline] at hOutline
      cases hOutline
      cases hShows with
      | function other => exact congrArg reference hSame
  | @arrayOf element hElement hFunction ih =>
      obtain ⟨outline, hOutline, hShows⟩ := hOther.exists_outline
      rw [← hSame, hElement.readsDistinct.outline_arrayOf hFunction] at hOutline
      generalize hText : element.operandText = text at hOutline
      cases hOutline
      cases hShows with
      | leaf hIsLeaf => exact hIsLeaf.elim
      | arrayOf hPart hPartFunction =>
          rw [ih hPart (hElement.readsDistinct.canonical_eq_of_operandText hPart.readsDistinct
            hFunction hPartFunction hText)]
  | @promiseOf result hResult hBalanced hLast ih =>
      obtain ⟨outline, hOutline, hShows⟩ := hOther.exists_outline
      rw [← hSame, outline_promiseOf hBalanced hLast] at hOutline
      generalize hText : result.canonical.toList = text at hOutline
      cases hOutline
      cases hShows with
      | leaf hIsLeaf => exact absurd rfl hIsLeaf.1
      | promiseOf hPart => rw [ih hPart (String.toList_inj.mp hText)]
  | @keyOf target hTarget hFunction ih =>
      obtain ⟨outline, hOutline, hShows⟩ := hOther.exists_outline
      rw [← hSame, hTarget.readsDistinct.outline_keyOf hFunction] at hOutline
      generalize hText : target.operandText = text at hOutline
      cases hOutline
      cases hShows with
      | leaf hIsLeaf => exact hIsLeaf.elim
      | keyOf hPart hPartFunction =>
          rw [ih hPart (hTarget.readsDistinct.canonical_eq_of_operandText hPart.readsDistinct
            hFunction hPartFunction hText)]
  | @unionOf members hMembers hFlat hFunction hTwo ih =>
      obtain ⟨outline, hOutline, hShows⟩ := hOther.exists_outline
      have hReads := fun t ht => (hMembers t ht).readsDistinct
      rw [← hSame, outline_unionOf hReads hFlat hFunction hTwo] at hOutline
      generalize hTexts : (members.map fun t => t.canonical.toList) = texts at hOutline
      cases hOutline
      cases hShows with
      | unionOf hParts =>
          rw [eq_of_map_eq (fun t ht part hPart hText => ?_) hTexts]
          exact ih t ht (hParts part hPart) (String.toList_inj.mp hText)

/-! ### Types with function types in their place -/

/-- Function types stand for themselves or as an argument only, and what
`Promise` is applied to does not end with `=`, which would make an arrow of
its bracket. -/
inductive Delimited : TypeExpr → Prop where
  | primitive (p : Primitive) : Delimited (.primitive p)
  | reference (text : String) : Delimited (.reference text)
  | genericRef (name : String) : Delimited (.genericRef name)
  | arrayOf {element : TypeExpr} (hElement : Delimited element)
      (hFunction : element.isFunction = false) : Delimited (.arrayOf element)
  | promiseOf {result : TypeExpr} (hResult : Delimited result)
      (hLast : result.canonical.toList.getLast? ≠ some '=') : Delimited (.promiseOf result)
  | keyOf {target : TypeExpr} (hTarget : Delimited target)
      (hFunction : target.isFunction = false) : Delimited (.keyOf target)
  | unionOf {members : List TypeExpr} (hMembers : ∀ t ∈ members, Delimited t)
      (hFunction : ∀ t ∈ members, t.isFunction = false) : Delimited (.unionOf members)

/-- The members of a legible type are legible, and none of them is a
union. -/
theorem Legible.unionMembers (h : Legible generics t) (hFunction : t.isFunction = false) :
    ∀ member ∈ t.unionMembers, Legible generics member ∧ member.isUnion = false ∧
      member.isFunction = false := by
  cases hUnion : t.isUnion with
  | false =>
      rw [unionMembers_of_isUnion hUnion, List.forall_mem_singleton]
      exact ⟨h, hUnion, hFunction⟩
  | true =>
      cases h with
      | leaf hLeaf =>
          rw [isUnion_of_isAtom hLeaf.isAtom] at hUnion
          cases hUnion
      | unionOf hMembers hFlat hParts =>
          exact fun part hPart => ⟨hMembers part hPart, hFlat part hPart, hParts part hPart⟩
      | function | arrayOf | promiseOf | keyOf => cases hUnion

/-- Spreading puts at least one member in the place of each, so that a union
stays one. -/
theorem length_spreadAll (h : ∀ t ∈ members, Parsed generics t) :
    members.length ≤ (spreadAll members).length := by
  induction members with
  | nil => exact Nat.le_refl _
  | cons t rest ih =>
      obtain ⟨hHead, hTail⟩ := List.forall_mem_cons.mp h
      have hOne := List.length_pos_iff.mpr hHead.unionMembers_spread_ne_nil
      have hRest := ih hTail
      rw [spreadAll, List.length_append, List.length_cons]
      omega

/-- With unions spread, types that keep function types in their place are
legible. -/
theorem Parsed.legible_spread (h : Parsed generics t) (hDelimited : t.Delimited) :
    Legible generics t.spread ∧ Balanced t.spread.canonical.toList := by
  induction h with
  | leaf hLeaf =>
      rw [spread_of_isAtom hLeaf.isAtom]
      exact ⟨.leaf hLeaf, hLeaf.text.balanced⟩
  | function hFunction hBalanced => exact ⟨.function hFunction, hBalanced⟩
  | arrayOf _ ih =>
      cases hDelimited with
      | arrayOf hElement hFunction =>
          have hLegible := Legible.arrayOf (ih hElement).1 (by rwa [isFunction_spread])
          exact ⟨hLegible, hLegible.readsDistinct.balanced rfl⟩
  | promiseOf hParsed ih =>
      cases hDelimited with
      | promiseOf hResult hLast =>
          obtain ⟨hPart, hBalanced⟩ := ih hResult
          have hLegible := hPart.promiseOf hBalanced (by rwa [hParsed.canonical_spread])
          exact ⟨hLegible, hLegible.readsDistinct.balanced rfl⟩
  | keyOf _ ih =>
      cases hDelimited with
      | keyOf hTarget hFunction =>
          have hLegible := Legible.keyOf (ih hTarget).1 (by rwa [isFunction_spread])
          exact ⟨hLegible, hLegible.readsDistinct.balanced rfl⟩
  | @unionOf members hMembers hNodup hTwo ih =>
      cases hDelimited with
      | unionOf hParts hFunction =>
          have hAll : ∀ member ∈ spreadAll members, Legible generics member ∧
              member.isUnion = false ∧ member.isFunction = false := by
            intro member hMember
            rw [spreadAll_eq] at hMember
            obtain ⟨t, ht, hMember⟩ := List.mem_flatMap.mp hMember
            refine (ih t ht (hParts t ht)).1.unionMembers ?_ member hMember
            rw [isFunction_spread]
            exact hFunction t ht
          have hLegible : Legible generics (.unionOf (spreadAll members)) :=
            .unionOf (fun t ht => (hAll t ht).1) (fun t ht => (hAll t ht).2.1)
              (fun t ht => (hAll t ht).2.2) (Nat.le_trans hTwo (length_spreadAll hMembers))
          exact ⟨hLegible, hLegible.readsDistinct.balanced rfl⟩

/-- What reading a type gives, told of its canonical text. -/
theorem legible_of_parse (h : parse generics text = .ok t) (hDelimited : t.Delimited) :
    Legible generics t.spread ∧ t.spread.canonical = t.canonical ∧ t.distinct = t := by
  rcases parsed_or_function h with hParsed | ⟨name, rfl, hFunction⟩
  · exact ⟨(hParsed.legible_spread hDelimited).1, hParsed.canonical_spread, hParsed.distinct_eq⟩
  · exact ⟨.function hFunction, rfl, rfl⟩

/-- Types that keep function types in their place share a canonical text
exactly when they differ in nothing but how their unions are nested. The
text reads as the type with unions spread and repeated members dropped,
which is the type itself if spreading does not change it: if no union is a
member of a union. -/
theorem canonical_identifies {first second : List Char} (hFirst : parse generics first = .ok s)
    (hSecond : parse generics second = .ok t) (hDelimited : s.Delimited)
    (hOther : t.Delimited) :
    (s.canonical = t.canonical ↔ s.spread = t.spread) ∧
      parse generics s.canonical.toList = .ok s.spread.distinct ∧
      (s.spread = s → parse generics s.canonical.toList = .ok s) ∧ (s.spread = s ↔ s.Flat) := by
  obtain ⟨hLegible, hCanonical, hDistinct⟩ := legible_of_parse hFirst hDelimited
  obtain ⟨hOtherLegible, hOtherCanonical, -⟩ := legible_of_parse hSecond hOther
  have hReads : parse generics s.canonical.toList = .ok s.spread.distinct := by
    rw [← hCanonical]
    exact hLegible.readsDistinct.reads
  refine ⟨⟨fun hSame => ?_, fun hSame => ?_⟩, hReads, fun hFlat => ?_, spread_eq_self_iff⟩
  · refine hLegible.canonical_injective hOtherLegible ?_
    rw [hCanonical, hOtherCanonical, hSame]
  · rw [← hCanonical, ← hOtherCanonical, hSame]
  · rw [hReads, hFlat, hDistinct]

/-- A nested union and the type that it is spread into share their canonical
text. -/
theorem canonical_identifies_nested :
    let nested : TypeExpr := .keyOf (.unionOf [.unionOf [.reference "A", .reference "B"],
      .arrayOf (.reference "Map<A, B>")])
    let flat : TypeExpr := .keyOf (.unionOf [.reference "A", .reference "B",
      .arrayOf (.reference "Map<A, B>")])
    (parse [] "keyof ((A | B) | Map<A,  B>[])".toList = .ok nested ∧ nested.Delimited ∧
      parse [] "keyof (A | B | Map<A, B>[])".toList = .ok flat ∧ flat.Delimited) ∧
      nested.canonical = flat.canonical ∧ parse [] nested.canonical.toList = .ok flat ∧
        parse [] flat.canonical.toList = .ok flat := by
  intro nested flat
  have hNested : parse [] "keyof ((A | B) | Map<A,  B>[])".toList = .ok nested := by
    decide +kernel
  have hFlat : parse [] "keyof (A | B | Map<A, B>[])".toList = .ok flat := by decide +kernel
  have hMap : Delimited (.arrayOf (.reference "Map<A, B>")) := .arrayOf (.reference _) rfl
  have hPair : Delimited (.unionOf [.reference "A", .reference "B"]) :=
    .unionOf (by simpa using ⟨.reference _, .reference _⟩) (by simp; decide)
  have hNestedDelimited : nested.Delimited :=
    .keyOf (.unionOf (by simpa using ⟨hPair, hMap⟩) (by simp; decide)) rfl
  have hFlatDelimited : flat.Delimited :=
    .keyOf (.unionOf (by simpa using ⟨.reference _, .reference _, hMap⟩) (by simp; decide)) rfl
  have hBoth := canonical_identifies hNested hFlat hNestedDelimited hFlatDelimited
  refine ⟨⟨hNested, hNestedDelimited, hFlat, hFlatDelimited⟩, hBoth.1.mpr rfl, hBoth.2.1, ?_⟩
  exact (canonical_identifies hFlat hNested hFlatDelimited hNestedDelimited).2.2.1 rfl

/-- The texts read as different types with one canonical text. -/
def Collide (first second : String) : Prop :=
  ∃ s t, parse [] first.toList = .ok s ∧ parse [] second.toList = .ok t ∧ s ≠ t ∧
    s.canonical = t.canonical

/-- Nested unions, function types as operands and `=` before a closing
bracket: in each case different types share a canonical text, and in the
last one the canonical text of a type may not even read. -/
theorem canonical_not_injective :
    Collide "(A | B) | C" "A | B | C" ∧
      Collide "((a) => b)[]" "(a) => b[]" ∧
      Collide "keyof ((a) => b)" "keyof (a) => b" ∧
      Collide "((a) => b) | c" "(a) => b | c" ∧
      Collide "Promise<Promise<(a =)> | c> | Promise<(b => | d)>"
        "Promise<Promise<(a => | c)> | Promise<(b =)> | d>" ∧
      parse [] "Promise<(a =)>".toList = .ok (.promiseOf (.reference "a =")) ∧
      parse [] (TypeExpr.promiseOf (.reference "a =")).canonical.toList =
        .error (.unbalanced (.neverClosed .angle)) := by
  refine ⟨?nested, ?array, ?keyOf, ?member, ?promise, by decide +kernel, by decide +kernel⟩
  case nested =>
    exact ⟨.unionOf [.unionOf [.reference "A", .reference "B"], .reference "C"],
      .unionOf [.reference "A", .reference "B", .reference "C"], by decide +kernel⟩
  case array =>
    exact ⟨.arrayOf (.reference "(a) => b"), .reference "(a) => b[]", by decide +kernel⟩
  case keyOf =>
    exact ⟨.keyOf (.reference "(a) => b"), .reference "keyof (a) => b", by decide +kernel⟩
  case member =>
    exact ⟨.unionOf [.reference "(a) => b", .reference "c"], .reference "(a) => b | c",
      by decide +kernel⟩
  case promise =>
    exact ⟨.unionOf [.promiseOf (.unionOf [.promiseOf (.reference "a ="), .reference "c"]),
        .promiseOf (.reference "b => | d")],
      .promiseOf (.unionOf [.promiseOf (.reference "a => | c"), .promiseOf (.reference "b ="),
        .reference "d"]), by decide +kernel⟩

end ScriptBindings.TypeExpr
