import ScriptBindings.Proofs.HostType.Structure
import ScriptBindings.Proofs.Text.Inclusion

/-! Which override a host type comes from. Host types and the type
parameters they need are found by two recursions of their own. Both stop at
the same type: the first one on the way inwards that an override applies
to. -/
namespace ScriptBindings

/-- Changing one entry of a table leaves the others as they were. -/
theorem OverrideTable.find?_insert_of_ne {table : OverrideTable} {key other : String}
    (entry : TypeOverride) (h : other ≠ key) :
    (table.insert key entry).find? other = table.find? other :=
  SortedEntries.lookup_insert_of_ne entry table.entries h

namespace TypeMap

open TypeExpr

/-- The mapping with another override for the key. -/
def withOverride (m : TypeMap) (key : String) (entry : TypeOverride) : TypeMap :=
  { m with overrides := m.overrides.insert key entry }

/-- The host type of the type is made from that of the override: the
override applies to the type, or to what its structure takes the host type
from. -/
inductive ComesFrom (m : TypeMap) (key : String) (entry : TypeOverride) : TypeExpr → Prop where
  | override {t : TypeExpr} (hKey : t.canonical = key) (hEntry : m.override? t = some entry)
      (hGeneric : ∀ name, t ≠ .genericRef name) : ComesFrom m key entry t
  | arrayOf {element : TypeExpr} (hBare : m.override? (.arrayOf element) = none)
      (hElement : ComesFrom m key entry element) : ComesFrom m key entry (.arrayOf element)
  | promiseOf {result : TypeExpr} (hBare : m.override? (.promiseOf result) = none)
      (hResult : ComesFrom m key entry result) : ComesFrom m key entry (.promiseOf result)
  | unionOf {members : List TypeExpr} {t : TypeExpr}
      (hBare : m.override? (.unionOf members) = none) (hSole : valued members = [t])
      (hMember : ComesFrom m key entry t) : ComesFrom m key entry (.unionOf members)

variable {m : TypeMap} {key : String} {entry other : TypeOverride} {t : TypeExpr}
  {generic : OverrideGeneric} {host name : String} {generics : List OverrideGeneric}

/-- The override that a type comes from is the one in the table. -/
theorem ComesFrom.find? (h : m.ComesFrom key entry t) : m.overrides.find? key = some entry := by
  induction h with
  | override hKey hEntry _ => exact hKey ▸ hEntry
  | arrayOf _ _ ih | promiseOf _ _ ih | unionOf _ _ _ ih => exact ih

/-- Induction along the way to a host type: it ends where an override
applies, at a type parameter, and where the structure of the type gives no
host type to go on with. -/
@[elab_as_elim]
theorem origin_induction {motive : TypeExpr → Prop} (m : TypeMap)
    (genericRef : ∀ name, motive (.genericRef name))
    (override : ∀ t entry, (∀ name, t ≠ .genericRef name) → m.override? t = some entry → motive t)
    (primitive : ∀ p, m.override? (.primitive p) = none → motive (.primitive p))
    (keyOf : ∀ target, m.override? (.keyOf target) = none → motive (.keyOf target))
    (reference : ∀ text, m.override? (.reference text) = none → motive (.reference text))
    (arrayOf : ∀ element, m.override? (.arrayOf element) = none → motive element →
      motive (.arrayOf element))
    (promiseOf : ∀ result, m.override? (.promiseOf result) = none → motive result →
      motive (.promiseOf result))
    (sole : ∀ members t, m.override? (.unionOf members) = none → valued members = [t] →
      motive t → motive (.unionOf members))
    (several : ∀ members, m.override? (.unionOf members) = none →
      (∀ t, valued members ≠ [t]) → motive (.unionOf members)) (t : TypeExpr) : motive t := by
  have hNode (t : TypeExpr) (hGeneric : ∀ name, t ≠ .genericRef name)
      (hBare : m.override? t = none → motive t) : motive t := by
    cases hOverride : m.override? t with
    | none => exact hBare hOverride
    | some entry => exact override t entry hGeneric hOverride
  induction t using TypeExpr.induction with
  | genericRef name => exact genericRef name
  | primitive p => exact hNode _ (by simp) (primitive p)
  | keyOf target _ => exact hNode _ (by simp) (keyOf target)
  | reference text => exact hNode _ (by simp) (reference text)
  | arrayOf element ih => exact hNode _ (by simp) fun hBare => arrayOf element hBare ih
  | promiseOf result ih => exact hNode _ (by simp) fun hBare => promiseOf result hBare ih
  | unionOf members ih =>
      refine hNode _ (by simp) fun hBare => ?_
      by_cases hSole : ∃ t, valued members = [t]
      · obtain ⟨t, hSole⟩ := hSole
        exact sole members t hBare hSole (ih t (mem_of_valued hSole))
      · exact several members hBare (not_exists.mp hSole)

/-! ### Type parameters -/

/-- With the host type of an override come the generics that it
introduces. -/
theorem introduced_of_comesFrom (h : m.ComesFrom key entry t) :
    m.introduced t = entry.generics := by
  induction h with
  | override _ hEntry hGeneric => exact introduced_of_override? hEntry hGeneric
  | arrayOf hBare _ ih => rw [introduced_arrayOf hBare, ih]
  | promiseOf hBare _ ih => rw [introduced_promiseOf hBare, ih]
  | unionOf hBare hSole _ ih => rw [introduced_unionOf_of_sole hBare hSole, ih]

/-- Type parameters are introduced by the override that the host type comes
from. -/
theorem exists_comesFrom_of_mem (h : generic ∈ m.introduced t) :
    ∃ key entry, m.ComesFrom key entry t ∧ generic ∈ entry.generics := by
  induction t using origin_induction m with
  | genericRef name => cases h
  | override t entry hGeneric hEntry =>
      rw [introduced_of_override? hEntry hGeneric] at h
      exact ⟨t.canonical, entry, .override rfl hEntry hGeneric, h⟩
  | primitive p hBare | keyOf target hBare | reference text hBare =>
      rw [introduced, orGenerics_of_none hBare] at h
      cases h
  | arrayOf element hBare ih =>
      rw [introduced_arrayOf hBare] at h
      obtain ⟨key, entry, hElement, hGeneric⟩ := ih h
      exact ⟨key, entry, .arrayOf hBare hElement, hGeneric⟩
  | promiseOf result hBare ih =>
      rw [introduced_promiseOf hBare] at h
      obtain ⟨key, entry, hResult, hGeneric⟩ := ih h
      exact ⟨key, entry, .promiseOf hBare hResult, hGeneric⟩
  | sole members t hBare hSole ih =>
      rw [introduced_unionOf_of_sole hBare hSole] at h
      obtain ⟨key, entry, hMember, hGeneric⟩ := ih h
      exact ⟨key, entry, .unionOf hBare hSole hMember, hGeneric⟩
  | several members hBare hSeveral =>
      rw [introduced_unionOf_of_several hBare hSeveral] at h
      cases h

/-! ### Host types -/

theorem append_ne_void {ending : String} (h : ¬ending.toList <:+ voidType.toList) (text : String) :
    text ++ ending ≠ voidType := by
  intro hSame
  rw [← hSame, String.toList_append] at h
  exact h (List.suffix_append _ _)

theorem taskOf_of_ne_void (h : host ≠ voidType) : taskOf host = "ValueTask<" ++ host ++ ">" :=
  if_neg (by simpa using h)

/-- A union with one member that carries a value is the nullable host type
of this member. -/
theorem unionHost_of_ne_void (h : host ≠ voidType) : m.unionHost [host] = nullable host :=
  if_neg (by simpa using h)

/-- The marks that the mapping writes around host types are not characters
of words. -/
def SparesMarks (isWord : Char → Bool) : Prop :=
  ∀ c ∈ "<>[]?".toList, isWord c = false

/-- The name stands in the host type as a whole. No name does in the keyword
`void`. -/
structure Mentions (isWord : Char → Bool) (name host : String) : Prop where
  ne_void : host ≠ voidType
  standsIn : Text.StandsIn isWord name.toList host.toList

namespace Mentions

variable {isWord : Char → Bool}

instance : Decidable (Mentions isWord name host) :=
  decidable_of_iff (host ≠ voidType ∧ Text.StandsIn isWord name.toList host.toList)
    ⟨fun h => ⟨h.1, h.2⟩, fun h => ⟨h.ne_void, h.standsIn⟩⟩

/-- A name is still mentioned where marks are put around the host type. -/
theorem between (h : Mentions isWord name host) (front : String) {ending : String}
    (hEnding : ¬ending.toList <:+ voidType.toList)
    (hFront : ∀ c ∈ front.toList.getLast?, isWord c = false)
    (hRest : ∀ c ∈ ending.toList.head?, isWord c = false) :
    Mentions isWord name (front ++ host ++ ending) := by
  refine ⟨append_ne_void hEnding _, ?_⟩
  rw [String.toList_append, String.toList_append]
  exact h.standsIn.between hFront hRest

/-- The marks of an array leave the name that stands before them as it
is. -/
theorem array (hMarks : SparesMarks isWord) (h : Mentions isWord name host) :
    Mentions isWord name (host ++ "[]") := by
  simpa using h.between "" (by decide) (by simp) (by simpa using hMarks '[' (by decide))

/-- So do those of a task. -/
theorem task (hMarks : SparesMarks isWord) (h : Mentions isWord name host) :
    Mentions isWord name (taskOf host) := by
  rw [taskOf_of_ne_void h.ne_void]
  exact h.between "ValueTask<" (by decide) (by simpa using hMarks '<' (by decide))
    (by simpa using hMarks '>' (by decide))

/-- And so does the mark of a nullable type, which may be there already. -/
theorem nullable (hMarks : SparesMarks isWord) (h : Mentions isWord name host) :
    Mentions isWord name (nullable host) := by
  unfold ScriptBindings.nullable
  split
  · exact h
  · simpa using h.between "" (by decide) (by simp) (by simpa using hMarks '?' (by decide))

/-- What an override mentions, all host types that come from it mention
too. -/
theorem of_comesFrom (hMarks : SparesMarks isWord) (h : Mentions isWord name entry.host)
    (hOrigin : m.ComesFrom key entry t) : Mentions isWord name (m.host t) := by
  induction hOrigin with
  | override _ hEntry hGeneric => rwa [host_of_override? hEntry hGeneric]
  | arrayOf hBare _ ih =>
      rw [host_arrayOf hBare]
      exact ih.array hMarks
  | promiseOf hBare _ ih =>
      rw [host_promiseOf hBare]
      exact ih.task hMarks
  | unionOf hBare hSole _ ih =>
      rw [host_unionOf_of_sole hBare hSole, unionHost_of_ne_void ih.ne_void]
      exact ih.nullable hMarks

end Mentions

/-- What is made of a host type other than `void` contains it. The word
`void` alone may be replaced by what surrounds it. -/
theorem host_of_comesFrom (h : m.ComesFrom key entry t) (hVoid : entry.host ≠ voidType) :
    entry.host.toList <:+: (m.host t).toList := by
  have hMarks : SparesMarks fun _ => false := fun _ _ => rfl
  have hEntry : Mentions (fun _ => false) entry.host entry.host := ⟨hVoid, Text.standsIn_refl _⟩
  exact (hEntry.of_comesFrom hMarks h).standsIn.isInfix

/-- A type with another text is mapped as before, whatever the override is
changed to. -/
theorem override?_withOverride (h : t.canonical ≠ key) :
    (m.withOverride key other).override? t = m.override? t :=
  OverrideTable.find?_insert_of_ne other h

/-- Another override for the key changes only host types that come from the
one there was. -/
theorem host_withOverride (hEntry : m.overrides.find? key = some entry)
    (h : ¬m.ComesFrom key entry t) : (m.withOverride key other).host t = m.host t := by
  have hElsewhere {t : TypeExpr} (hBare : m.override? t = none) :
      (m.withOverride key other).override? t = none := by
    rw [override?_withOverride, hBare]
    rintro rfl
    rw [override?, hEntry] at hBare
    cases hBare
  induction t using origin_induction m with
  | genericRef name => rfl
  | override t found hGeneric hFound =>
      have hKey : t.canonical ≠ key := by
        rintro rfl
        rw [override?, hEntry] at hFound
        exact h (.override rfl hEntry hGeneric)
      rw [host_of_override? (override?_withOverride hKey ▸ hFound) hGeneric,
        host_of_override? hFound hGeneric]
  | primitive p hBare | keyOf target hBare | reference text hBare =>
      rw [host, host, orOverride_of_none hBare, orOverride_of_none (hElsewhere hBare)]
      rfl
  | arrayOf element hBare ih =>
      rw [host_arrayOf hBare, host_arrayOf (hElsewhere hBare),
        ih fun hElement => h (.arrayOf hBare hElement)]
  | promiseOf result hBare ih =>
      rw [host_promiseOf hBare, host_promiseOf (hElsewhere hBare),
        ih fun hResult => h (.promiseOf hBare hResult)]
  | sole members t hBare hSole ih =>
      rw [host_unionOf_of_sole hBare hSole, host_unionOf_of_sole (hElsewhere hBare) hSole,
        ih fun hMember => h (.unionOf hBare hSole hMember)]
      rfl
  | several members hBare hSeveral =>
      rw [host_unionOf_of_several hBare hSeveral,
        host_unionOf_of_several (hElsewhere hBare) hSeveral]
      rfl

/-- An override with a type parameter of its own is used by a host type
exactly when the type introduces the parameter: otherwise its text does not
matter, and if so the host type contains it, unless that is `void`. -/
theorem host_follows_introduced (hEntry : m.overrides.find? key = some (.generic host generics))
    (hName : name ∈ generics.map (·.name))
    (hOnly : ∀ other entry, m.overrides.find? other = some entry →
      name ∈ entry.generics.map (·.name) → other = key) (t : TypeExpr) :
    (name ∉ (m.introduced t).map (·.name) →
      ∀ text, (m.withOverride key (.generic text generics)).host t = m.host t) ∧
    (name ∈ (m.introduced t).map (·.name) → host ≠ voidType →
      host.toList <:+: (m.host t).toList) := by
  constructor
  · intro hUnused text
    refine host_withOverride hEntry fun hOrigin => hUnused ?_
    rw [introduced_of_comesFrom hOrigin]
    exact hName
  · intro hUsed hVoid
    obtain ⟨generic, hGeneric, hSame⟩ := List.mem_map.mp hUsed
    obtain ⟨other, entry, hOrigin, hMem⟩ := exists_comesFrom_of_mem hGeneric
    obtain rfl : other = key :=
      hOnly other entry hOrigin.find? (List.mem_map.mpr ⟨generic, hMem, hSame⟩)
    obtain rfl : entry = .generic host generics :=
      Option.some_inj.mp (hOrigin.find?.symm.trans hEntry)
    exact host_of_comesFrom hOrigin hVoid

/-- The parameter of `number` is introduced by `Promise<(number | null)[]>`
but neither by `Promise<string>` nor by a union with `string`. -/
theorem host_follows_introduced_of_number :
    let numbers : List OverrideGeneric := [⟨"TNumber", some "INumber<TNumber>"⟩]
    let m : TypeMap := ⟨.ofList [("number", .generic "TNumber" numbers),
      ("string", .generic "TText" [⟨"TText", none⟩])], "object"⟩
    let list : TypeExpr := .promiseOf (.arrayOf (.unionOf [.primitive .number, .primitive .null]))
    let text : TypeExpr := .promiseOf (.primitive .string)
    let choice : TypeExpr := .unionOf [.primitive .number, .primitive .string]
    "TNumber".toList <:+: (m.host list).toList ∧
      ∀ other, (m.withOverride "number" (.generic other numbers)).host text = "ValueTask<TText>" ∧
        (m.withOverride "number" (.generic other numbers)).host choice = "object" := by
  intro numbers m list text choice
  have hEntry : m.overrides.find? "number" = some (.generic "TNumber" numbers) := by
    decide +kernel
  have hOnly (other : String) (entry : TypeOverride) (h : m.overrides.find? other = some entry)
      (hName : "TNumber" ∈ entry.generics.map (·.name)) : other = "number" :=
    (by decide +kernel : ∀ pair ∈ m.overrides.entries,
      "TNumber" ∈ pair.2.generics.map (·.name) → pair.1 = "number") _
        (SortedEntries.mem_of_lookup h) hName
  have hFollows := host_follows_introduced hEntry (by decide) hOnly
  refine ⟨(hFollows list).2 (by decide +kernel) (by decide), fun other => ⟨?_, ?_⟩⟩
  · exact ((hFollows text).1 (by decide +kernel) other).trans (by decide +kernel)
  · exact ((hFollows choice).1 (by decide +kernel) other).trans (by decide +kernel)

end TypeMap

end ScriptBindings
