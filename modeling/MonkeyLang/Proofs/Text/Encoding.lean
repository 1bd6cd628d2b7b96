import Mathlib.Data.List.Basic

/-!
# Encoding — texts as bytes

The bytes of a text are those of its characters in order, and the text can be had from them again.
A byte below 128 is a character of its own, so a line feed among the bytes is a line feed in the
text.
-/

namespace MonkeyLang
namespace Text

/-! ## Byte arrays as lists -/

theorem toList_loop (b : ByteArray) (i : Nat) (bs : List UInt8) :
    ByteArray.toList.loop b i bs = bs.reverse ++ b.data.toList.drop i := by
  induction i, bs using ByteArray.toList.loop.induct b with
  | case1 i bs h ih =>
      have hi : i < b.data.toList.length := h
      rw [ByteArray.toList.loop, if_pos h, ih, List.drop_eq_getElem_cons hi]
      simp [ByteArray.get!, getElem!_pos, h]
  | case2 i bs h =>
      have hi : b.data.toList.length ≤ i := Nat.le_of_not_lt h
      rw [ByteArray.toList.loop, if_neg h, List.drop_eq_nil_of_le hi, List.append_nil]

theorem toList_eq (b : ByteArray) : b.toList = b.data.toList := by
  rw [ByteArray.toList, toList_loop, List.reverse_nil, List.nil_append, List.drop_zero]

/-! ## Bytes of a text -/

/-- The bytes of a text. -/
def bytes (text : String) : List UInt8 :=
  text.toUTF8.toList

theorem bytes_eq_flatMap (text : String) :
    bytes text = text.toList.flatMap String.utf8EncodeChar := by
  have hText : text.toUTF8 = text.toList.utf8Encode := by
    rw [← String.toByteArray_ofList, String.ofList_toList, String.toUTF8_eq_toByteArray]
  rw [bytes, toList_eq, hText, List.utf8Encode, List.toList_data_toByteArray]

@[simp] theorem bytes_append (s t : String) : bytes (s ++ t) = bytes s ++ bytes t := by
  simp only [bytes_eq_flatMap, String.toList_append, List.flatMap_append]

/-- A text can be had from its bytes again. -/
theorem fromUTF8?_bytes (text : String) : String.fromUTF8? ⟨(bytes text).toArray⟩ = some text := by
  rw [bytes, toList_eq, Array.toArray_toList, String.toUTF8_eq_toByteArray, String.fromUTF8?]
  exact dif_pos text.isValidUTF8

/-- Bytes that a text can be had from are the bytes of that text. -/
theorem eq_bytes_of_fromUTF8? {bs : List UInt8} {text : String}
    (h : String.fromUTF8? ⟨bs.toArray⟩ = some text) : bs = bytes text := by
  unfold String.fromUTF8? at h
  split at h
  · have hText := Option.some.inj h
    subst hText
    rw [bytes, toList_eq]
    rfl
  · cases h

theorem bytes_injective {s t : String} (h : bytes s = bytes t) : s = t := by
  have hText := fromUTF8?_bytes s
  rw [h, fromUTF8?_bytes] at hText
  exact (Option.some.inj hText).symm

/-! ## Line feeds -/

/-- A byte below 128 is a character of its own. -/
theorem toNat_eq_of_mem {b : UInt8} {c : Char} (h : b ∈ String.utf8EncodeChar c)
    (hb : b.toNat < 128) : b.toNat = c.toNat := by
  have hc : c.val.toNat = c.toNat := rfl
  simp only [String.utf8EncodeChar, hc] at h
  -- every byte of a longer encoding has 128 added to it at least
  repeat' split at h
  all_goals
    simp only [List.mem_cons, List.not_mem_nil, or_false] at h
    rcases h with rfl | rfl | rfl | rfl <;> simp only [UInt8.toNat_ofNat'] at hb ⊢ <;> omega

theorem newline_not_mem {c : Char} (h : c ≠ '\n') : 10 ∉ String.utf8EncodeChar c := by
  intro hMem
  have hCode : (10 : UInt8).toNat = c.toNat := toNat_eq_of_mem hMem (by decide)
  exact h (Char.ext (UInt32.toNat_inj.1 hCode.symm))

end Text
end MonkeyLang
