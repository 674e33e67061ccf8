import Mathlib.Data.List.TakeWhile
import ScriptBindings.Declaration.ModulePath

/-! The URL of a module as a part of its path. What stands at the ends of
the path is dropped, and what is left stands between a slash and the ending
of a script. It begins with a slash of its own only where the path has two
slashes behind the web root. -/
namespace ScriptBindings.ModulePath

open Text

variable {path : List Char} {c : Char}

/-- The characters of what a URL is made without, or with instead. -/
def fixedChars : List Char :=
  "./\\wwwroot/.d.ts.js".toList

/-- Whether a text is fixed is seen by going through it. -/
theorem fixed_of_all {text : List Char} (h : text.all fixedChars.contains = true) :
    ∀ c ∈ text, c ∈ fixedChars :=
  fun c hc => List.contains_iff_mem.mp (List.all_eq_true.mp h c hc)

/-- A text is a part of another if nothing but fixed characters stand around
it. -/
def PartOf (part text : List Char) : Prop :=
  ∃ front back, text = front ++ (part ++ back) ∧ (∀ c ∈ front ++ back, c ∈ fixedChars)

namespace PartOf

variable {part text whole : List Char}

theorem refl (text : List Char) : PartOf text text :=
  ⟨[], [], by simp, by simp⟩

/-- What is a part of a part is a part of the whole, so that the steps of
making a URL may be followed one by one. -/
theorem trans (h : PartOf part text) (hText : PartOf text whole) : PartOf part whole := by
  obtain ⟨front, back, rfl, hFixed⟩ := h
  obtain ⟨before, behind, rfl, hOuter⟩ := hText
  refine ⟨before ++ front, back ++ behind, by simp, fun c hc => ?_⟩
  simp only [List.mem_append] at hFixed hOuter hc
  rcases hc with (hc | hc) | hc | hc
  · exact hOuter c (Or.inl hc)
  · exact hFixed c (Or.inl hc)
  · exact hFixed c (Or.inr hc)
  · exact hOuter c (Or.inr hc)

theorem of_append {front : List Char} (h : ∀ c ∈ front, c ∈ fixedChars) :
    PartOf text (front ++ text) :=
  ⟨front, [], by simp, by simpa using h⟩

/-- A character that is not fixed occurs in a part exactly if it does in the
whole. -/
theorem mem_iff (h : PartOf part text) (hc : c ∉ fixedChars) : c ∈ part ↔ c ∈ text := by
  obtain ⟨front, back, rfl, hFixed⟩ := h
  have hFront : c ∉ front := fun hMem => hc (hFixed c (List.mem_append_left back hMem))
  have hBack : c ∉ back := fun hMem => hc (hFixed c (List.mem_append_right front hMem))
  simp [hFront, hBack]

theorem subset (h : PartOf part text) : part ⊆ text := by
  obtain ⟨front, back, rfl, -⟩ := h
  intro c hc
  simp [hc]

end PartOf

/-- What is dropped from the front of a path is made of fixed characters. -/
theorem dropDotSlashes_partOf (path : List Char) : PartOf (dropDotSlashes path) path := by
  fun_induction dropDotSlashes path with
  | case1 rest ih =>
      have hFront : ∀ c ∈ ['.', '/'], c ∈ fixedChars := fixed_of_all (by decide)
      exact ih.trans (.of_append hFront)
  | case2 path => exact .refl path

theorem dropSlashes_partOf (path : List Char) : PartOf (path.dropWhile (· == '/')) path := by
  have hCut := List.takeWhile_append_dropWhile (p := (· == '/')) (l := path)
  have hPart : PartOf (path.dropWhile (· == '/'))
      (path.takeWhile (· == '/') ++ path.dropWhile (· == '/')) := by
    refine .of_append fun c hc => ?_
    have hSlash := List.mem_takeWhile_imp (p := (· == '/')) hc
    rw [beq_iff_eq.mp hSlash]
    decide
  rwa [hCut] at hPart

/-- What is left below the directory that is served is a part of the path,
since its name is made of fixed characters. -/
theorem below_partOf (path : List Char) :
    PartOf ((after? "wwwroot/".toList path).getD path) path := by
  cases hAfter : after? "wwwroot/".toList path with
  | none => exact .refl path
  | some rest =>
      rw [after?_eq_some_iff.mp hAfter]
      exact .of_append (fixed_of_all (by decide))

/-- And so is the ending, in place of which another one is written. -/
theorem dropScriptEnding_partOf (path : List Char) : PartOf (dropScriptEnding path) path := by
  unfold dropScriptEnding
  cases hEnding : [".d.ts", ".ts", ".js"].findSome? (before? ·.toList path) with
  | none => exact .refl path
  | some rest =>
      obtain ⟨ending, hMem, hBefore⟩ := List.exists_of_findSome?_eq_some hEnding
      rw [before?_eq_some_iff.mp hBefore]
      have hFixed : ∀ ending ∈ [".d.ts", ".ts", ".js"],
          ending.toList.all fixedChars.contains = true := by
        decide
      exact ⟨[], ending.toList, rfl, fixed_of_all (hFixed ending hMem)⟩

/-- The URL is made of a part of the path, with slashes for backslashes. -/
theorem exists_url (path : List Char) :
    ∃ part, url path = '/' :: part ++ ".js".toList ∧ PartOf part (slashed path) :=
  ⟨_, rfl, (dropScriptEnding_partOf _).trans ((below_partOf _).trans
    ((dropSlashes_partOf _).trans (dropDotSlashes_partOf _)))⟩

/-- Turning backslashes into slashes neither adds nor removes any other
character. -/
theorem mem_slashed_iff (hc : c ∉ fixedChars) : c ∈ slashed path ↔ c ∈ path := by
  have hSlash : c ≠ '/' := by
    rintro rfl
    exact hc (by decide)
  have hBackslash : c ≠ '\\' := by
    rintro rfl
    exact hc (by decide)
  rw [slashed, List.mem_map]
  constructor
  · rintro ⟨d, hd, hSame⟩
    split at hSame
    · exact absurd hSame.symm hSlash
    · exact hSame ▸ hd
  · intro hMem
    exact ⟨c, hMem, if_neg (by simpa using hBackslash)⟩

/-- All characters of a path but those that belong to its form come into the
URL. -/
theorem mem_url_iff (hc : c ∉ fixedChars) : c ∈ url path ↔ c ∈ path := by
  obtain ⟨part, hUrl, hPart⟩ := exists_url path
  have hFixed : ∀ d ∈ '/' :: ".js".toList, d ∈ fixedChars := fixed_of_all (by decide)
  have hEnds : c ∉ '/' :: ".js".toList := fun hMem => hc (hFixed c hMem)
  rw [List.mem_cons, not_or] at hEnds
  rw [hUrl, List.cons_append, List.mem_cons, List.mem_append, hPart.mem_iff hc,
    mem_slashed_iff hc, or_iff_right hEnds.1, or_iff_left hEnds.2]

theorem not_backslash_mem_slashed (path : List Char) : '\\' ∉ slashed path := by
  rw [slashed, List.mem_map]
  rintro ⟨c, -, hSame⟩
  split at hSame
  · cases hSame
  · next hBackslash => exact hBackslash (by rw [hSame]; rfl)

/-- No URL has a backslash: none is left of the path, and whatever is added
has none either. -/
theorem not_backslash_mem_url (path : List Char) : '\\' ∉ url path := by
  obtain ⟨part, hUrl, hPart⟩ := exists_url path
  rw [hUrl, List.cons_append, List.mem_cons, List.mem_append, not_or, not_or]
  exact ⟨by decide, fun hMem => not_backslash_mem_slashed path (hPart.subset hMem), by decide⟩

/-! ### How a URL begins -/

/-- What is dropped in front of a path: any number of `./`, and then any
number of slashes. -/
def leadIn (dots slashes : Nat) : List Char :=
  (List.replicate dots "./".toList).flatten ++ List.replicate slashes '/'

theorem leadIn_succ (dots slashes : Nat) :
    leadIn (dots + 1) slashes = '.' :: '/' :: leadIn dots slashes := by
  rw [leadIn, List.replicate_succ, List.flatten_cons, List.append_assoc]
  rfl

theorem leadIn_zero (slashes : Nat) : leadIn 0 slashes = List.replicate slashes '/' := by
  rw [leadIn, List.replicate_zero, List.flatten_nil, List.nil_append]

/-- Every path is what is dropped from its front and the rest, in these two
parts. -/
theorem exists_leadIn (path : List Char) :
    ∃ dots slashes, path = leadIn dots slashes ++ (dropDotSlashes path).dropWhile (· == '/') := by
  fun_induction dropDotSlashes path with
  | case1 rest ih =>
      obtain ⟨dots, slashes, hRest⟩ := ih
      refine ⟨dots + 1, slashes, ?_⟩
      rw [leadIn_succ, List.cons_append, List.cons_append, ← hRest]
  | case2 path =>
      have hSlashes : path.takeWhile (· == '/') =
          List.replicate (path.takeWhile (· == '/')).length '/' := by
        apply List.eq_replicate_of_mem
        intro c hc
        exact beq_iff_eq.mp (List.mem_takeWhile_imp (p := (· == '/')) hc)
      refine ⟨0, (path.takeWhile (· == '/')).length, ?_⟩
      rw [leadIn_zero, ← hSlashes, List.takeWhile_append_dropWhile]

/-- Nothing is dropped from a path that does not begin with a dot. -/
theorem dropDotSlashes_of_head? (h : path.head? ≠ some '.') : dropDotSlashes path = path := by
  unfold dropDotSlashes
  split
  · exact absurd rfl h
  · rfl

/-- Nothing behind the lead-in is dropped if it begins with another
character. -/
theorem dropWhile_leadIn_append {rest : List Char} (dots slashes : Nat)
    (hDot : rest.head? ≠ some '.') (hSlash : rest.head? ≠ some '/') :
    (dropDotSlashes (leadIn dots slashes ++ rest)).dropWhile (· == '/') = rest := by
  induction dots with
  | zero =>
      have hHead : (leadIn 0 slashes ++ rest).head? ≠ some '.' := by
        cases slashes with
        | zero => exact hDot
        | succ slashes => simp [leadIn_zero, List.replicate_succ]
      rw [dropDotSlashes_of_head? hHead, leadIn_zero, List.dropWhile_append_of_pos (by simp)]
      cases rest with
      | nil => rfl
      | cons c rest => exact List.dropWhile_cons_of_neg (by simpa using hSlash)
  | succ dots ih => rw [leadIn_succ, List.cons_append, List.cons_append, dropDotSlashes, ih]

/-- An ending is dropped behind the first character, if that is a slash. -/
theorem head?_dropScriptEnding (text : List Char) :
    (dropScriptEnding text).head? = some '/' ↔ text.head? = some '/' := by
  unfold dropScriptEnding
  cases hEnding : [".d.ts", ".ts", ".js"].findSome? (before? ·.toList text) with
  | none => rfl
  | some rest =>
      obtain ⟨ending, hMem, hBefore⟩ := List.exists_of_findSome?_eq_some hEnding
      have hDots : ∀ ending ∈ [".d.ts", ".ts", ".js"], ending.toList.head? ≠ some '/' := by
        decide
      rw [before?_eq_some_iff.mp hBefore, Option.getD_some]
      cases rest with
      | nil => exact iff_of_false nofun (hDots ending hMem)
      | cons c rest => rfl

/-- A slash comes first below the web root only where two slashes follow its
name. -/
theorem head?_below {relative : List Char} (hSlash : relative.head? ≠ some '/') :
    ((after? "wwwroot/".toList relative).getD relative).head? = some '/' ↔
      ∃ rest, relative = "wwwroot//".toList ++ rest := by
  cases hAfter : after? "wwwroot/".toList relative with
  | none =>
      refine iff_of_false hSlash ?_
      rintro ⟨rest, rfl⟩
      have hFound : after? "wwwroot/".toList ("wwwroot//".toList ++ rest) = some ('/' :: rest) :=
        after?_eq_some_iff.mpr rfl
      rw [hAfter] at hFound
      cases hFound
  | some below =>
      obtain rfl := after?_eq_some_iff.mp hAfter
      rw [Option.getD_some, List.head?_eq_some_iff]
      constructor
      · rintro ⟨rest, rfl⟩
        exact ⟨rest, rfl⟩
      · rintro ⟨rest, hRest⟩
        exact ⟨rest, List.append_cancel_left (hRest : _ = "wwwroot/".toList ++ '/' :: rest)⟩

/-- Two slashes come together at the front exactly if the path still begins
with one. -/
theorem slashes_prefix_iff (text : List Char) :
    "//".toList <+: '/' :: text ++ ".js".toList ↔ text.head? = some '/' := by
  cases text with
  | nil => decide
  | cons c text =>
      have hSlashes : "//".toList = ['/', '/'] := rfl
      rw [hSlashes, List.cons_append, List.cons_append, List.cons_prefix_cons,
        List.cons_prefix_cons, List.head?_cons, Option.some_inj]
      simp [eq_comm]

/-- The slashes are dropped before the directory is, so that those behind
the directory are left. This happens for no other path. -/
theorem slashes_prefix_url_iff (path : List Char) :
    "//".toList <+: url path ↔ ∃ dots slashes rest,
      slashed path = leadIn dots slashes ++ ("wwwroot//".toList ++ rest) := by
  have hSlash : ((dropDotSlashes (slashed path)).dropWhile (· == '/')).head? ≠ some '/' := by
    intro hHead
    have hNot := List.head?_dropWhile_not (· == '/') (dropDotSlashes (slashed path))
    rw [hHead] at hNot
    cases hNot
  have hUrl : "//".toList <+: url path ↔ ∃ rest,
      (dropDotSlashes (slashed path)).dropWhile (· == '/') = "wwwroot//".toList ++ rest := by
    rw [← head?_below hSlash, ← head?_dropScriptEnding]
    exact slashes_prefix_iff _
  rw [hUrl]
  constructor
  · rintro ⟨rest, hRest⟩
    obtain ⟨dots, slashes, hPath⟩ := exists_leadIn (slashed path)
    exact ⟨dots, slashes, rest, by rw [← hRest, ← hPath]⟩
  · rintro ⟨dots, slashes, rest, hPath⟩
    rw [hPath, dropWhile_leadIn_append dots slashes (by simp) (by simp)]
    exact ⟨rest, rfl⟩

/-- The URL of a module begins with a slash, has no backslash and ends as a
script does. A second slash follows the first one exactly where the path has
two behind the web root. -/
theorem url_rooted (path : List Char) :
    ['/'] <+: url path ∧ '\\' ∉ url path ∧ ".js".toList <:+ url path ∧
      ("//".toList <+: url path ↔ ∃ dots slashes rest,
        slashed path = leadIn dots slashes ++ ("wwwroot//".toList ++ rest)) :=
  ⟨List.prefix_append _ _, not_backslash_mem_url path, List.suffix_append _ _,
    slashes_prefix_url_iff path⟩

/-- A URL with two slashes in front names another host. -/
theorem not_forall_url_rooted :
    ¬∀ path, ['/'] <+: url path ∧ ¬"//".toList <+: url path ∧ '\\' ∉ url path ∧
      ".js".toList <:+ url path := by
  intro h
  have hHost := (h "wwwroot//cdn.example.com/x.d.ts".toList).2.1
  exact absurd hHost (by decide)

end ScriptBindings.ModulePath
