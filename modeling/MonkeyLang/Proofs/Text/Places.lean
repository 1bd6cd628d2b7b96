import MonkeyLang.Proofs.Text.Encoding

/-!
# Places — where the characters of a text stand among its bytes

The first byte of a character is the character itself on ASCII, and is beyond ASCII for all others;
so a class of ASCII characters can be told by first bytes (`apply_firstByte`).  Behind some
characters of a text, which take `width` bytes, there is a boundary, and the only boundaries that a
character touches are its two ends (`isValid_inside`).
-/

namespace MonkeyLang
namespace Text

/-! ## The first byte of a character -/

def firstByte (c : Char) : UInt8 :=
  (String.utf8EncodeChar c).head String.utf8EncodeChar_ne_nil

theorem toNat_ofUInt8 (b : UInt8) : (Char.ofUInt8 b).toNat = b.toNat :=
  rfl

/-- An ASCII character is its own first byte. -/
theorem ofUInt8_firstByte {c : Char} (h : c.toNat < 128) : Char.ofUInt8 (firstByte c) = c := by
  have hSize : c.utf8Size = 1 := Char.utf8Size_eq_one_iff.2 (Nat.le_of_lt_succ h)
  have hByte : firstByte c = c.val.toUInt8 := by
    simp [firstByte, String.utf8EncodeChar_eq_singleton hSize]
  rw [hByte]
  refine Char.toNat_inj.1 ?_
  rw [toNat_ofUInt8]
  exact Nat.mod_eq_of_lt (Nat.lt_trans h (by decide))

/-- The first byte of any other character is beyond ASCII too. -/
theorem le_firstByte {c : Char} (h : 128 ≤ c.toNat) : 128 ≤ (firstByte c).toNat := by
  by_contra hLt
  have hMem : firstByte c ∈ String.utf8EncodeChar c := List.head_mem _
  have hEq := toNat_eq_of_mem hMem (Nat.lt_of_not_le hLt)
  omega

/-- What is the same for all characters beyond ASCII can be found from the first byte. -/
theorem apply_firstByte {α : Type} {f : Char → α} {a : α} (hf : ∀ c, 128 ≤ c.toNat → f c = a)
    (c : Char) : f (.ofUInt8 (firstByte c)) = f c := by
  by_cases h : c.toNat < 128
  · rw [ofUInt8_firstByte h]
  · have hWide : 128 ≤ c.toNat := Nat.le_of_not_lt h
    have hByte : 128 ≤ (Char.ofUInt8 (firstByte c)).toNat := le_firstByte hWide
    rw [hf c hWide, hf _ hByte]

/-- What is told from the characters beyond ASCII is ASCII. -/
theorem lt_of_apply_ne {α : Type} {f : Char → α} {a : α} (hf : ∀ {c}, 128 ≤ c.toNat → f c = a)
    {c : Char} (h : f c ≠ a) : c.toNat < 128 := by
  by_contra hWide
  exact h (hf (Nat.le_of_not_lt hWide))

/-! ## Places in a text -/

/-- How many bytes some characters take. -/
def width : List Char → Nat
  | [] => 0
  | c :: cs => c.utf8Size + width cs

@[simp] theorem width_nil : width [] = 0 :=
  rfl

@[simp] theorem width_cons (c : Char) (cs : List Char) :
    width (c :: cs) = c.utf8Size + width cs :=
  rfl

@[simp] theorem width_append (cs ds : List Char) : width (cs ++ ds) = width cs + width ds := by
  induction cs with
  | nil => simp
  | cons c cs ih => simp [ih, Nat.add_assoc]

@[simp] theorem size_utf8Encode (cs : List Char) : cs.utf8Encode.size = width cs := by
  induction cs with
  | nil => rfl
  | cons c cs ih =>
      rw [List.utf8Encode_cons, ByteArray.size_append, ih, List.utf8Encode_singleton,
        List.size_toByteArray, String.length_utf8EncodeChar, width_cons]

section

variable {text : String} {before after word : List Char} {c : Char}

theorem toByteArray_eq (h : text.toList = before ++ after) :
    text.toByteArray = before.utf8Encode ++ after.utf8Encode := by
  rw [← String.utf8Encode_toList, h, List.utf8Encode_append]

theorem size_eq (h : text.toList = before ++ after) :
    text.toByteArray.size = width before + width after := by
  rw [toByteArray_eq h, ByteArray.size_append, size_utf8Encode, size_utf8Encode]

theorem getElem_width (h : text.toList = before ++ c :: after)
    (hLt : width before < text.toByteArray.size) :
    text.toByteArray[width before] = firstByte c := by
  have hBytes : text.toByteArray =
      before.utf8Encode ++ ((String.utf8EncodeChar c).toByteArray ++ after.utf8Encode) := by
    rw [toByteArray_eq h, List.utf8Encode_cons, List.utf8Encode_singleton]
  have hPos := c.utf8Size_pos
  simp only [hBytes]
  rw [ByteArray.getElem_append_right (by simp), ByteArray.getElem_append_left (by simpa using hPos)]
  simp [firstByte, List.head_eq_getElem]

/-- Between two characters of a text there is a boundary. -/
theorem isValid_width (h : text.toList = before ++ after) :
    String.Pos.Raw.IsValid text ⟨width before⟩ := by
  rw [String.Pos.Raw.isValid_iff_exists_append]
  refine ⟨.ofList before, .ofList after, ?_, ?_⟩
  · rw [← String.ofList_append, ← h, String.ofList_toList]
  · rw [String.rawEndPos, ← String.size_toByteArray, String.toByteArray_ofList, size_utf8Encode]

/-- Inside of a character there is none. -/
theorem isValid_inside (h : text.toList = before ++ c :: after) {i : Nat} (hi : width before < i)
    (hle : i ≤ width before + c.utf8Size) :
    String.Pos.Raw.IsValid text ⟨i⟩ ↔ i = width before + c.utf8Size := by
  constructor
  · intro hValid
    rcases String.Pos.Raw.isValid_iff_exists_take_toList.1 hValid with ⟨n, hn⟩
    have hWidth : i = width (text.toList.take n) := by
      rw [← size_utf8Encode, ← String.toByteArray_ofList, String.size_toByteArray]
      exact hn
    by_cases hBefore : n ≤ before.length
    · -- the characters up to the boundary are some of those in front of the character
      have hSplit : width before = width (before.take n) + width (before.drop n) := by
        rw [← width_append, List.take_append_drop]
      rw [h, List.take_append_of_le_length hBefore] at hWidth
      omega
    · have hPast : n = before.length + (n - before.length - 1 + 1) := by omega
      rw [h, hPast, List.take_length_add_append, List.take_succ_cons, width_append,
        width_cons] at hWidth
      omega
  · rintro rfl
    have hNext : text.toList = (before ++ [c]) ++ after := by simp [h]
    have hEnd : width (before ++ [c]) = width before + c.utf8Size := by simp
    rw [← hEnd]
    exact isValid_width hNext

/-- The character behind a boundary is decoded. -/
theorem utf8DecodeChar?_width (h : text.toList = before ++ after) :
    text.toByteArray.utf8DecodeChar? (width before) = after.head? := by
  have hExtract : text.toByteArray.extract (width before) text.toByteArray.size =
      after.utf8Encode := by
    rw [toByteArray_eq h]
    exact ByteArray.extract_append_eq_right (size_utf8Encode before).symm
      ByteArray.size_append
  rw [ByteArray.utf8DecodeChar?_eq_utf8DecodeChar?_extract, hExtract]
  cases after with
  | nil => rfl
  | cons c cs => exact List.utf8DecodeChar?_utf8Encode_cons

/-- What stands between two boundaries is cut out. -/
theorem extract_width (h : text.toList = before ++ (word ++ after))
    (hStart : String.Pos.Raw.IsValid text ⟨width before⟩)
    (hEnd : String.Pos.Raw.IsValid text ⟨width (before ++ word)⟩) :
    text.extract ⟨⟨width before⟩, hStart⟩ ⟨⟨width (before ++ word)⟩, hEnd⟩ = .ofList word := by
  have hBytes : text.toByteArray.extract (width before) (width before + width word) =
      word.utf8Encode := by
    rw [toByteArray_eq h, List.utf8Encode_append, ← size_utf8Encode, ← size_utf8Encode]
    exact (ByteArray.extract_append_size_add (i := 0)).trans (ByteArray.extract_append_eq_left rfl)
  rw [← String.toByteArray_inj, String.toByteArray_ofList, ← hBytes, ← width_append]
  rfl

end

end Text

end MonkeyLang
