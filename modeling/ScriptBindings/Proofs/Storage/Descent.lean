import ScriptBindings.Proofs.Storage.Files

/-! Paths of places at any depth below a directory. The names on the way are
joined to the path of the directory one after another. What lies between the
directory and the place can as well be joined first: seen from the
directory, it is the names with slashes between them. A path begins with the
segments of another where it goes on with a slash behind that, or ends. -/
namespace ScriptBindings

open Node (Place)

namespace Path

variable {base inner name : String} {place rest : Place}

/-- The path of a place below a directory. -/
def below (base : String) (place : Place) : String :=
  place.foldl join base

/-- The names of a place with slashes between them. -/
def ofPlace (place : Place) : String :=
  "/".intercalate place

/-- The path with a slash for every backslash. -/
def slashed (path : String) : String :=
  path.map fun c => if c == '\\' then '/' else c

/-- The path without the slashes at its end. -/
def dropEndSlashes (path : String) : String :=
  String.ofList (path.toList.reverse.dropWhile (· == '/')).reverse

/-- A path that has a name at its end, and no slash behind it. -/
def EndsInName (path : String) : Prop :=
  ∃ c, path.toList.getLast? = some c ∧ c ≠ '/'

/-! ### Segments -/

theorem intercalate_segments (path : String) : "/".intercalate (segments path) = path := by
  have hId : String.toList ∘ String.ofList = id := funext fun text => String.toList_ofList
  rw [← String.toList_inj, String.toList_intercalate, segments, List.map_map, hId, List.map_id]
  exact List.intercalate_splitOn '/'

/-- A path begins with whole segments of another if it goes on with a slash,
or not at all. -/
theorem segments_prefix_iff {front path : String} :
    segments front <+: segments path ↔
      path.toList = front.toList ∨ front.toList ++ ['/'] <+: path.toList := by
  constructor
  · rintro ⟨more, hMore⟩
    rw [← intercalate_segments path, ← hMore]
    have hFront : segments front ≠ [] := by simp [segments]
    by_cases hRest : more = []
    · left
      rw [hRest, List.append_nil, intercalate_segments]
    · right
      rw [String.intercalate_append_of_ne_nil hFront hRest, intercalate_segments,
        String.toList_append, String.toList_append]
      exact List.prefix_append _ _
  · rintro (hSame | ⟨rest, hRest⟩)
    · rw [String.toList_inj.mp hSame]
    · have hPath : path = front ++ "/" ++ String.ofList rest := by
        apply String.toList_inj.mp
        simp [← hRest]
      rw [hPath, segments_append]
      exact List.prefix_append _ _

/-! ### Names joined to a path -/

theorem below_append (base : String) (place rest : Place) :
    below base (place ++ rest) = below (below base place) rest :=
  List.foldl_append

theorem below_concat (base : String) (place : Place) (name : String) :
    below base (place ++ [name]) = join (below base place) name :=
  below_append base place [name]

/-- The name of an entry has no slash in front, so that joining it to a path
keeps the path. -/
theorem not_isAbsolute (hName : isEntryName name = true) : isAbsolute name = false := by
  obtain ⟨-, -, -, hSlash, -⟩ := isEntryName_iff.mp hName
  exact isAbsolute_of_not_mem hSlash

theorem endsInName_of_isEntryName (hName : isEntryName name = true) : EndsInName name := by
  obtain ⟨hEmpty, -, -, hSlash, -⟩ := isEntryName_iff.mp hName
  have hChars : name.toList ≠ [] := mt String.toList_eq_nil_iff.mp hEmpty
  refine ⟨name.toList.getLast hChars, List.getLast?_eq_some_getLast hChars, fun hSame => ?_⟩
  exact hSlash (hSame ▸ List.getLast_mem hChars)

/-- A path ends in a name whatever is put in front of it. -/
theorem EndsInName.append (h : EndsInName inner) (front : String) :
    EndsInName (front ++ inner) := by
  obtain ⟨c, hLast, hSlash⟩ := h
  refine ⟨c, ?_, hSlash⟩
  rw [String.toList_append, List.getLast?_append, hLast]
  rfl

/-- Such a path is not empty, and joining a name to it writes a slash
between the two. -/
theorem EndsInName.ne_empty (h : EndsInName base) : base ≠ "" := by
  rintro rfl
  obtain ⟨c, hLast, -⟩ := h
  cases hLast

/-- Whatever it is joined to, a name is at the end. So the path of an entry
never ends in a slash. -/
theorem endsInName_join (base : String) (hName : isEntryName name = true) :
    EndsInName (join base name) := by
  have hEnd := endsInName_of_isEntryName hName
  unfold join
  split
  · exact hEnd
  · split
    · exact hEnd.append base
    · exact hEnd.append (base ++ "/")

/-- Below a path that ends in a name there is exactly one slash before the
next name. -/
theorem EndsInName.join_eq (h : EndsInName base) (hName : isEntryName name = true) :
    join base name = base ++ "/" ++ name := by
  obtain ⟨-, -, -, hSlash, -⟩ := isEntryName_iff.mp hName
  rw [Path.join_eq h.ne_empty hSlash, if_neg]
  obtain ⟨c, hLast, hOther⟩ := h
  rw [hLast]
  simpa using hOther

/-- So the path of a place below it is the path and the names of the place
with slashes between. -/
theorem EndsInName.below_eq (h : EndsInName base)
    (hNames : ∀ name ∈ rest, isEntryName name = true) :
    below base rest = "/".intercalate (base :: rest) := by
  induction rest generalizing base with
  | nil => exact String.intercalate_singleton.symm
  | cons name later ih =>
      rw [List.forall_mem_cons] at hNames
      have hJoin := h.join_eq hNames.1
      rw [String.intercalate_cons_cons, ← String.intercalate_cons_append, ← hJoin]
      exact ih (endsInName_join base hNames.1) hNames.2

/-- Below nothing there are only the names of the place. -/
theorem below_empty (hNames : ∀ name ∈ place, isEntryName name = true) :
    below "" place = ofPlace place := by
  cases place with
  | nil => rfl
  | cons name rest =>
      rw [List.forall_mem_cons] at hNames
      have hFirst : join "" name = name := by simp [join]
      change below (join "" name) rest = "/".intercalate (name :: rest)
      rw [hFirst]
      exact (endsInName_of_isEntryName hNames.1).below_eq hNames.2

/-- What is seen from a path stands behind the same text, whatever it is:
behind nothing, or behind a slash. -/
theorem exists_join_eq (base : String) :
    ∃ front, (front = "" ∨ front.toList.getLast? = some '/') ∧
      ∀ inner, isAbsolute inner = false → join base inner = front ++ inner := by
  by_cases hBase : base = ""
  · exact ⟨"", Or.inl rfl, fun inner _ => by simp [join, hBase]⟩
  · by_cases hSlash : base.toList.getLast? = some '/'
    · exact ⟨base, Or.inr hSlash, fun inner hInner => by simp [join, hInner, hBase, hSlash]⟩
    · refine ⟨base ++ "/", Or.inr ?_, fun inner hInner => by simp [join, hInner, hBase, hSlash]⟩
      rw [String.toList_append]
      exact List.getLast?_concat

/-- The path of a place is relative, since no name in it begins with a
slash. -/
theorem isAbsolute_ofPlace (hNames : ∀ name ∈ place, isEntryName name = true) :
    isAbsolute (ofPlace place) = false := by
  cases place with
  | nil => rfl
  | cons name rest =>
      rw [List.forall_mem_cons] at hNames
      obtain ⟨hEmpty, -⟩ := isEntryName_iff.mp hNames.1
      have hSplit : ofPlace (name :: rest) = name ++ "/".intercalate ("" :: rest) := by
        rw [← String.intercalate_cons_append, String.append_empty]
        rfl
      have hChars : name.toList ≠ [] := mt String.toList_eq_nil_iff.mp hEmpty
      rw [hSplit, isAbsolute, String.toList_append, List.head?_append_of_ne_nil _ hChars]
      exact not_isAbsolute hNames.1

/-- The way down can be joined first. -/
theorem join_ofPlace (base : String) (hPlace : place ≠ [])
    (hNames : ∀ name ∈ place, isEntryName name = true) :
    join base (ofPlace place) = below base place := by
  obtain ⟨front, -, hFront⟩ := exists_join_eq base
  rw [hFront _ (isAbsolute_ofPlace hNames)]
  cases place with
  | nil => exact absurd rfl hPlace
  | cons name rest =>
      rw [List.forall_mem_cons] at hNames
      have hJoin := hFront name (not_isAbsolute hNames.1)
      calc front ++ "/".intercalate (name :: rest)
        _ = "/".intercalate (join base name :: rest) := by
          rw [hJoin, String.intercalate_cons_append]
        _ = below (join base name) rest :=
          ((endsInName_join base hNames.1).below_eq hNames.2).symm

end Path

namespace FileTree

variable {tree : FileTree} {root : String} {place rest : Place}

/-- A place may be looked up in two steps, from the root and then from the
node that was reached. -/
theorem nodeAt?_append {node : Node} (h : tree.nodeAt? place = some node) (rest : Place) :
    tree.nodeAt? (place ++ rest) = node.get? rest := by
  rw [nodeAt?] at h
  rw [nodeAt?, Node.get?_append, h]
  rfl

/-- Where no path is too long, every place below a directory is led to by
its path. -/
theorem Opens.leadsTo_below (h : tree.Opens root place)
    (hFits : ∀ rest, (tree.occupant? (place ++ rest)).isSome →
      (Path.below root rest).utf8ByteSize ≤ pathLimit)
    (hSome : (tree.occupant? (place ++ rest)).isSome) :
    tree.LeadsTo (Path.below root rest) (place ++ rest) := by
  induction rest using List.reverseRecOn with
  | nil =>
      rw [List.append_nil]
      exact h.1
  | append_singleton front name ih =>
      -- The last name is looked up in the directory that the names before it lead to.
      rw [← List.append_assoc] at hSome ⊢
      have hAround := occupant?_of_append (List.cons_ne_nil name []) hSome
      have hOpens : tree.Opens (Path.below root front) (place ++ front) :=
        ⟨ih (by rw [hAround]; rfl), hAround⟩
      have hEnough := hFits (front ++ [name]) (by rwa [← List.append_assoc])
      rw [Path.below_concat] at hEnough ⊢
      exact hOpens.leadsTo_join hEnough hSome

end FileTree

end ScriptBindings
