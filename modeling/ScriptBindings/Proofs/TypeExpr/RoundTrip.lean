import ScriptBindings.Proofs.Repetitions
import ScriptBindings.Proofs.TypeExpr.Members

/-! Canonical texts read back. The parentheses around a loose operand, the
`[]` behind it and the words before it are each taken off again by the form
that put them there, because no form that is tried before it applies. -/
namespace ScriptBindings.TypeExpr

open Text Outcomes ScriptBindings.Bracket

/-- The characters of canonical texts. No comma, colon, semicolon, brace,
quote or slash is among them. -/
def isTypeChar (c : Char) : Bool :=
  isNameChar c || ['[', ']', '(', ')', '<', '>', '|', ' '].contains c

/-- A blank does not stand directly behind the word a text begins with. -/
def Tight (text : List Char) : Prop :=
  ∀ c, (text.dropWhile isNameChar).head? = some c → isBlank c = false

/-- The text reads as this type, wherever it stands. -/
structure Typed (generics : List String) (text : List Char) (t : TypeExpr) : Prop where
  balanced : Balanced text
  chars : ∀ c ∈ text, isTypeChar c = true
  trimmed : Trimmed text
  ne_nil : text ≠ []
  reads : parse generics text = .ok t

/-- The text reads as this member of a union. -/
structure Member (generics : List String) (text : List Char) (t : TypeExpr) : Prop where
  whole : Whole '|' text
  chars : ∀ c ∈ text, isTypeChar c = true
  trimmed : Trimmed text
  ne_nil : text ≠ []
  reads : parseMember generics text = .ok t

/-- The text reads as this type where a form takes an operand. -/
structure Operand (generics : List String) (text : List Char) (t : TypeExpr) : Prop
    extends Member generics text t where
  tight : Tight text

variable {generics : List String} {text : List Char} {t : TypeExpr}

theorem not_mem_of_chars {c : Char} (h : ∀ c ∈ text, isTypeChar c = true)
    (hChar : isTypeChar c = false) : c ∉ text := by
  intro hMem
  rw [h c hMem] at hChar
  cases hChar

theorem last_ne_of_chars (h : ∀ c ∈ text, isTypeChar c = true) : text.getLast? ≠ some '=' :=
  fun hLast => not_mem_of_chars h (by decide) (List.mem_of_getLast? hLast)

theorem lacks_arrow_of_chars (h : ∀ c ∈ text, isTypeChar c = true) : Lacks arrow text :=
  .of_not_mem List.mem_cons_self (not_mem_of_chars h (by decide))

theorem Member.memberText (h : Member generics text t) : MemberText text :=
  ⟨h.whole, lacks_arrow_of_chars h.chars, h.trimmed, h.ne_nil⟩

theorem MemberText.member (hText : MemberText text) (hChars : ∀ c ∈ text, isTypeChar c = true)
    (hReads : parseMember generics text = .ok t) : Member generics text t :=
  ⟨hText.whole, hChars, hText.trimmed, hText.ne_nil, hReads⟩

/-- A member by itself is a type. -/
theorem Member.typed (h : Member generics text t) : Typed generics text t where
  balanced := h.whole.balanced
  chars := h.chars
  trimmed := h.trimmed
  ne_nil := h.ne_nil
  reads := h.memberText.parse_eq.trans h.reads

/-! ### Forms of canonical texts -/

/-- A tight text begins with no keyword, as one would need a blank behind
it. -/
theorem afterWord?_eq_none {word : String} (hText : Tight text)
    (hWord : isName word.toList = true) : afterWord? word text = none := by
  cases hAfter : afterWord? word text with
  | none => rfl
  | some rest =>
      obtain ⟨-, c, hHead, hBlank⟩ := blank_of_afterWord? hWord hAfter
      rw [hText c hHead] at hBlank
      cases hBlank

/-! ### Names -/

theorem isTypeChar_of_isNameChar {c : Char} (h : isNameChar c = true) : isTypeChar c = true := by
  rw [isTypeChar, h, Bool.true_or]

theorem dropWhile_of_isName (h : isName text = true) : text.dropWhile isNameChar = [] :=
  List.dropWhile_eq_nil_iff.mpr fun _ hc => isNameChar_of_isName h hc

theorem tight_of_isName (h : isName text = true) : Tight text := by
  intro c hHead
  rw [dropWhile_of_isName h] at hHead
  cases hHead

/-- A name alone is a plain member, even if it is that of an operator. -/
theorem form_of_name (h : isName text = true) : Form.of text = .ok .plain := by
  have hBalanced : Balanced text := .of_plain (isPlain_of_isName h)
  have hLast {c : Char} (hc : isNameChar c = false) : text.getLast? ≠ some c :=
    fun hMem => not_mem_of_isName h hc (List.mem_of_getLast? hMem)
  refine Form.of_eq_ok_iff.mpr (.plain ?_ ?_ ?_ ?_ ?_)
  · exact grouped?_eq_none hBalanced (hLast (by decide))
  · exact afterWord?_eq_none (tight_of_isName h) rfl
  · exact afterWord?_eq_none (tight_of_isName h) rfl
  · exact element?_eq_none (hLast (by decide))
  · exact application?_eq_none (not_mem_of_isName h (by decide))

/-- A name reads as the plain type of that name. -/
theorem member_of_name (h : isName text = true) :
    Member generics text (ofPlain generics text) := by
  refine (MemberText.of_name h).member ?_ ?_
  · exact fun _ hc => isTypeChar_of_isNameChar (isNameChar_of_isName h hc)
  · rw [parseMember_of_form (trimmed_of_isName h) (form_of_name h)]
    rfl

/-! ### Types made of types -/

theorem Tight.append {back : List Char} {c : Char} (h : Tight text) (hHead : back.head? = some c)
    (hName : isNameChar c = false) (hBlank : isBlank c = false) : Tight (text ++ back) := by
  intro d hd
  rw [List.dropWhile_append] at hd
  split at hd
  · obtain ⟨rest, rfl⟩ := List.head?_eq_some_iff.mp hHead
    rw [List.dropWhile_cons, hName] at hd
    cases hd
    exact hBlank
  · next hSome =>
      rw [List.head?_append_of_ne_nil _ (by simpa using hSome)] at hd
      exact h d hd

/-- Nothing stands before the character that ends the first word. -/
theorem tight_cons {c : Char} (hName : isNameChar c = false) (hBlank : isBlank c = false) :
    Tight (c :: text) := by
  intro d hd
  rw [List.dropWhile_cons, hName] at hd
  cases hd
  exact hBlank

/-- A type in parentheses may be an operand, whatever it is. -/
theorem Typed.grouped (h : Typed generics text t) :
    Operand generics ('(' :: (text ++ [')'])) t := by
  refine ⟨(MemberText.grouped h.balanced).member ?_ ?_, tight_cons rfl rfl⟩
  · simpa [or_imp, forall_and] using ⟨rfl, h.chars, rfl⟩
  · rw [parseMember_grouped h.balanced]
    exact h.reads

/-- An operand may be made an array of, and the array is an operand
again. -/
theorem Operand.arrayOf (h : Operand generics text t) :
    Operand generics (text ++ ['[', ']']) (.arrayOf t) := by
  have hText : MemberText (text ++ ['[', ']']) := h.memberText.squares
  refine ⟨hText.member ?_ ?_, h.tight.append rfl rfl rfl⟩
  · rw [List.forall_mem_append]
    exact ⟨h.chars, List.all_eq_true.mp rfl⟩
  · rw [parseMember_array hText.balanced h.trimmed h.ne_nil (afterWord?_eq_none h.tight rfl)
      (afterWord?_eq_none h.tight rfl), h.reads]
    rfl

/-- A promise may be an operand, whatever its result is, because its
brackets keep the two apart. -/
theorem Typed.promiseOf (h : Typed generics text t) :
    Operand generics ("Promise".toList ++ '<' :: (text ++ ['>'])) (.promiseOf t) := by
  have hLast : text.getLast? ≠ some '=' := last_ne_of_chars h.chars
  have hTight : Tight ("Promise".toList ++ '<' :: (text ++ ['>'])) :=
    (tight_of_isName rfl).append rfl rfl rfl
  refine ⟨(MemberText.applied rfl h.balanced hLast).member ?_ ?_, hTight⟩
  · rw [List.forall_mem_append, List.forall_mem_cons, List.forall_mem_append]
    exact ⟨List.all_eq_true.mp rfl, rfl, h.chars, List.all_eq_true.mp rfl⟩
  · rw [parseMember_promise h.balanced hLast, h.reads]
    rfl

/-- The keys of an operand make a member, which is not an operand, as the
operator would take in a suffix. -/
theorem Operand.keyOf (h : Operand generics text t) :
    Member generics ("keyof ".toList ++ text) (.keyOf t) := by
  refine h.memberText.keyOf.member ?_ ?_
  · rw [List.forall_mem_append]
    exact ⟨List.all_eq_true.mp rfl, h.chars⟩
  · rw [parseMember_keyOf h.trimmed h.ne_nil, h.reads]
    rfl

/-- Different members are the union of them, if there are two. -/
theorem ofMembers_eq {members : List TypeExpr} (h : members.Nodup) (hTwo : 2 ≤ members.length) :
    ofMembers members = .ok (.unionOf members) := by
  unfold ofMembers
  rw [eraseDups_of_nodup h]
  match members with
  | _ :: _ :: _ => rfl

/-- Members joined by bars read as their union. -/
theorem typed_union {members : List TypeExpr} {write : TypeExpr → List Char}
    (hMembers : ∀ t ∈ members, Member generics (write t) t) (hNodup : members.Nodup)
    (hTwo : 2 ≤ members.length) :
    Typed generics (" | ".toList.intercalate (members.map write)) (.unionOf members) := by
  have hTexts : ∀ text ∈ members.map write, ∃ t, Member generics text t := by
    intro text hText
    obtain ⟨t, ht, rfl⟩ := List.mem_map.mp hText
    exact ⟨t, hMembers t ht⟩
  have hPieces : ∀ text ∈ members.map write, MemberText text := by
    intro text hText
    obtain ⟨t, ht⟩ := hTexts text hText
    exact ht.memberText
  have hSome : members.map write ≠ [] := by
    simpa using List.length_pos_iff.mp (Nat.lt_of_lt_of_le Nat.zero_lt_two hTwo)
  have hChars : ∀ c ∈ " | ".toList.intercalate (members.map write), isTypeChar c = true := by
    intro c hc
    rcases mem_intercalate hc with hJoint | ⟨text, hText, hMem⟩
    · exact List.all_eq_true.mp (show " | ".toList.all isTypeChar = true from rfl) c hJoint
    · obtain ⟨t, ht⟩ := hTexts text hText
      exact ht.chars c hMem
  obtain ⟨hTrimmed, hNil⟩ := trimmed_joined hPieces hSome
  have hReads : List.Forall₂ (fun piece t => parseMember generics piece = .ok t)
      (members.map write) members := by
    rw [List.forall₂_map_left_iff, List.forall₂_same]
    exact fun t ht => (hMembers t ht).reads
  refine ⟨balanced_joined hPieces, hChars, hTrimmed, hNil, ?_⟩
  rw [parse_joined hPieces hSome, mapM_ok_iff.mpr hReads, ok_bind, ofMembers_eq hNodup hTwo]

/-! ### Canonical texts -/

def isUnion : TypeExpr → Bool
  | .unionOf _ => true
  | _ => false

/-- The types whose canonical text reads back, where these type parameters
are in scope. References are names that read as nothing else, and unions are
flat. -/
inductive Writable (generics : List String) : TypeExpr → Prop where
  | primitive (p : Primitive) : Writable generics (.primitive p)
  | arrayOf {element : TypeExpr} (hElement : Writable generics element) :
      Writable generics (.arrayOf element)
  | unionOf {members : List TypeExpr} (hMembers : ∀ t ∈ members, Writable generics t)
      (hFlat : ∀ t ∈ members, t.isUnion = false) (hNodup : members.Nodup)
      (hTwo : 2 ≤ members.length) : Writable generics (.unionOf members)
  | promiseOf {result : TypeExpr} (hResult : Writable generics result) :
      Writable generics (.promiseOf result)
  | keyOf {target : TypeExpr} (hTarget : Writable generics target) :
      Writable generics (.keyOf target)
  | reference {text : String} (hName : isName text.toList = true)
      (hKeyword : Primitive.ofKeyword? text = none) (hGeneric : text ∉ generics) :
      Writable generics (.reference text)
  | genericRef {name : String} (hGeneric : name ∈ generics) : Writable generics (.genericRef name)

/-- Type parameters whose names are names and mean no keyword type. -/
def Scope (generics : List String) : Prop :=
  ∀ name ∈ generics, isName name.toList = true ∧ Primitive.ofKeyword? name = none

/-- How tightly the canonical text of a type holds together: every text
reads as its type, that of no union as a member, and that of no loose type
as an operand. -/
structure ReadsBack (generics : List String) (t : TypeExpr) : Prop where
  typed : Typed generics t.canonical.toList t
  member : t.isUnion = false → Member generics t.canonical.toList t
  operand : t.bindsLoosely = false → Operand generics t.canonical.toList t

namespace ReadsBack

theorem of_operand (h : Operand generics t.canonical.toList t) : ReadsBack generics t :=
  ⟨h.typed, fun _ => h.toMember, fun _ => h⟩

/-- A loose type is an operand in parentheses. -/
theorem parenthesised (h : ReadsBack generics t) :
    Operand generics (parenthesise t.bindsLoosely t.canonical).toList t := by
  cases hLoose : t.bindsLoosely with
  | false => exact h.operand hLoose
  | true =>
      have hText : (parenthesise true t.canonical).toList =
          '(' :: (t.canonical.toList ++ [')']) := by
        simp [parenthesise]
      rw [hText]
      exact h.typed.grouped

end ReadsBack

theorem opaqueType_of_name {name : String} (h : isName name.toList = true) :
    opaqueType name.toList = .reference name := by
  rw [opaqueType, normalise_of_isName h, String.ofList_toList]

theorem ofPlain_of_keyword {name : String} {p : Primitive} (h : isName name.toList = true)
    (hKeyword : Primitive.ofKeyword? name = some p) :
    ofPlain generics name.toList = .primitive p := by
  unfold ofPlain
  rw [if_pos h, String.ofList_toList]
  simp only [hKeyword]

theorem ofPlain_of_name {name : String} (h : isName name.toList = true)
    (hKeyword : Primitive.ofKeyword? name = none) :
    ofPlain generics name.toList =
      if name ∈ generics then .genericRef name else .reference name := by
  unfold ofPlain
  rw [if_pos h, String.ofList_toList]
  simp only [hKeyword, List.contains_iff_mem, opaqueType_of_name h]

/-- A type whose canonical text is a name reads back as soon as the name
means it. -/
theorem ReadsBack.of_name {name : String} (hName : isName name.toList = true)
    (hCanonical : t.canonical = name) (hReads : ofPlain generics name.toList = t) :
    ReadsBack generics t := by
  have hMember : Member generics name.toList (ofPlain generics name.toList) := member_of_name hName
  rw [hReads] at hMember
  exact .of_operand ⟨hCanonical ▸ hMember, hCanonical ▸ tight_of_isName hName⟩

/-- Canonical texts read back as their types. -/
theorem Writable.readsBack (h : Writable generics t) (hScope : Scope generics) :
    ReadsBack generics t := by
  induction h with
  | primitive p =>
      apply ReadsBack.of_name (isName_keyword p) rfl
      exact ofPlain_of_keyword (isName_keyword p) p.ofKeyword?_keyword
  | @arrayOf element _ ih =>
      apply ReadsBack.of_operand
      rw [canonical, String.toList_append]
      exact ih.parenthesised.arrayOf
  | @unionOf members _ hFlat hNodup hTwo ih =>
      refine ⟨?_, by rintro ⟨⟩, by rintro ⟨⟩⟩
      rw [canonical, String.toList_intercalate, canonicalAll_eq_map, List.map_map]
      exact typed_union (fun t ht => (ih t ht).member (hFlat t ht)) hNodup hTwo
  | @promiseOf result _ ih =>
      apply ReadsBack.of_operand
      rw [canonical, String.toList_append, String.toList_append, List.append_assoc]
      exact ih.typed.promiseOf
  | @keyOf target _ ih =>
      have hMember : Member generics (canonical (.keyOf target)).toList (.keyOf target) := by
        rw [canonical, String.toList_append]
        exact ih.parenthesised.keyOf
      exact ⟨hMember.typed, fun _ => hMember, by rintro ⟨⟩⟩
  | reference hName hKeyword hGeneric =>
      apply ReadsBack.of_name hName rfl
      rw [ofPlain_of_name hName hKeyword, if_neg hGeneric]
  | @genericRef name hGeneric =>
      obtain ⟨hName, hKeyword⟩ := hScope name hGeneric
      apply ReadsBack.of_name hName rfl
      rw [ofPlain_of_name hName hKeyword, if_pos hGeneric]

end ScriptBindings.TypeExpr
