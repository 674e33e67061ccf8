import ScriptBindings.Text.Measure

/-! Byte offsets of the parts of a text. A part is found again between the
offsets at which it begins and ends. -/
namespace ScriptBindings.Text

theorem byteCount_pos {text : List Char} (h : text ≠ []) : 0 < byteCount text := by
  obtain ⟨c, rest, rfl⟩ := List.exists_cons_of_ne_nil h
  have hSize := c.utf8Size_pos
  rw [byteCount_cons]
  omega

/-- A character that is not in a part of a text stands before the part or
behind it. -/
theorem apart_of_not_mem {before after front body back : List Char} {c : Char}
    (h : front ++ (body ++ back) = before ++ c :: after) (hNot : c ∉ body) :
    byteCount front + byteCount body ≤ byteCount before ∨
      byteCount before + c.utf8Size ≤ byteCount front := by
  have hBehind {more : List Char} (hMore : body ++ back = more ++ c :: after) :
      byteCount body ≤ byteCount more := by
    rcases List.append_eq_append_iff.mp hMore with ⟨rest, rfl, -⟩ | ⟨rest, rfl, hRest⟩
    · rw [byteCount_append]
      omega
    · cases rest with
      | nil => simp
      | cons d rest =>
          obtain ⟨rfl, -⟩ := List.cons.inj hRest
          simp at hNot
  rcases List.append_eq_append_iff.mp h with ⟨more, rfl, hMore⟩ | ⟨more, rfl, hMore⟩
  · rw [byteCount_append]
    exact Or.inl (Nat.add_le_add_left (hBehind hMore) _)
  · cases more with
    | nil =>
        have hEmpty : byteCount body ≤ byteCount [] := hBehind hMore.symm
        rw [List.append_nil]
        exact Or.inl (Nat.add_le_add_left hEmpty _)
    | cons d more =>
        obtain ⟨rfl, -⟩ := List.cons.inj hMore
        refine Or.inr ?_
        rw [byteCount_append, byteCount_cons]
        omega

/-- What ends before the slice begins does not matter. -/
theorem sliceFrom_skip {start stop offset : Nat} {front rest : List Char}
    (hStart : offset + byteCount front ≤ start) (hStop : start ≤ stop) :
    sliceFrom offset start stop (front ++ rest) =
      sliceFrom (offset + byteCount front) start stop rest := by
  induction front generalizing offset with
  | nil => rfl
  | cons c front ih =>
      have hSize := c.utf8Size_pos
      rw [byteCount_cons] at hStart
      rw [List.cons_append, sliceFrom, if_neg (by omega), if_neg (by omega), ih (by omega),
        byteCount_cons, Nat.add_assoc]

theorem sliceFrom_take {start offset : Nat} {body back : List Char} (hStart : start ≤ offset) :
    sliceFrom offset start (offset + byteCount body) (body ++ back) = body := by
  induction body generalizing offset with
  | nil => cases back <;> simp [sliceFrom]
  | cons c body ih =>
      have hSize := c.utf8Size_pos
      rw [List.cons_append, sliceFrom, if_neg (by simp only [byteCount_cons]; omega),
        if_pos hStart, byteCount_cons, ← Nat.add_assoc, ih (by omega)]

/-- Between its ends a part of a text is that part. Spans are turned back
into texts by this. -/
theorem slice_append (front body back : List Char) :
    slice (byteCount front) (byteCount front + byteCount body) (front ++ (body ++ back)) =
      body := by
  rw [slice, sliceFrom_skip (by omega) (by omega), Nat.zero_add, sliceFrom_take (Nat.le_refl _)]

/-- The UTF-8 form of a text. -/
def bytes (text : List Char) : List UInt8 :=
  text.flatMap String.utf8EncodeChar

@[simp] theorem bytes_cons (c : Char) (rest : List Char) :
    bytes (c :: rest) = String.utf8EncodeChar c ++ bytes rest := rfl

@[simp] theorem bytes_append (first second : List Char) :
    bytes (first ++ second) = bytes first ++ bytes second :=
  List.flatMap_append

/-- The bytes of a text are as many as are counted for it. -/
theorem length_bytes (text : List Char) : (bytes text).length = byteCount text := by
  induction text with
  | nil => rfl
  | cons c rest ih => simp [ih]

/-- The byte of a newline occurs in no other character. -/
theorem newline_mem_utf8EncodeChar_iff {c : Char} :
    (10 : UInt8) ∈ String.utf8EncodeChar c ↔ c = '\n' := by
  constructor
  · intro h
    have hByte (n : Nat) : (10 : UInt8) = UInt8.ofNat n ↔ n % 256 = 10 := by
      rw [← UInt8.toNat_inj, UInt8.toNat_ofNat']
      exact eq_comm
    have hValue : c.val.toNat = 10 := by
      dsimp only [String.utf8EncodeChar] at h
      repeat' split at h
      all_goals
        simp only [List.mem_cons, List.not_mem_nil, or_false, hByte] at h
        omega
    exact Char.ext (UInt32.toNat_inj.mp hValue)
  · rintro rfl
    decide

end ScriptBindings.Text
