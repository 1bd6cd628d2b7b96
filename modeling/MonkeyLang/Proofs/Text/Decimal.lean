import Mathlib.Data.List.Induction
import Mathlib.Data.Nat.Digits.Defs

/-!
# Decimal — numbers written with digits

The value of a run of decimal digits is the sum of its digits, each of them times the power of ten
of its place.  Runs that differ by zeros in front have one value.  The numeral of a number is the
run without such zeros (`Numeral`); every number has exactly one, and it is what `Nat.repr` writes
(`numeral_iff`).
-/

namespace MonkeyLang
namespace Text

/-! ## Values of digits -/

def digitValue (c : Char) : Nat :=
  c.toNat - '0'.toNat

/-- The sum of the digits, the last of which stands for ones, the one in front of it for tens, and
so on. -/
def decimalValue (digits : List Char) : Nat :=
  Nat.ofDigits 10 (digits.reverse.map digitValue)

theorem digitValue_lt {c : Char} (h : c.isDigit = true) : digitValue c < 10 := by
  have hRange : 48 ≤ c.toNat ∧ c.toNat ≤ 57 := Char.isDigit_iff_toNat.1 h
  have hZero : '0'.toNat = 48 := rfl
  rw [digitValue, hZero]
  omega

theorem digitChar_digitValue {c : Char} (h : c.isDigit = true) :
    (digitValue c).digitChar = c := by
  have hRange : 48 ≤ c.toNat ∧ c.toNat ≤ 57 := Char.isDigit_iff_toNat.1 h
  have hZero : '0'.toNat = 48 := rfl
  rw [← Char.toNat_inj, Nat.toNat_digitChar_of_lt_ten (digitValue_lt h), digitValue, hZero]
  omega

/-- Read from the left, every digit adds itself to ten times what is in front of it. -/
theorem ofDigitChars_eq_decimalValue (digits : List Char) :
    Nat.ofDigitChars 10 digits 0 = decimalValue digits := by
  induction digits using List.reverseRecOn with
  | nil => rfl
  | append_singleton digits c ih =>
      have hLast : decimalValue (digits ++ [c]) = digitValue c + 10 * decimalValue digits := by
        simp only [decimalValue, List.reverse_append, List.reverse_cons, List.reverse_nil,
          List.nil_append, List.singleton_append, List.map_cons, Nat.ofDigits_cons]
      rw [Nat.ofDigitChars_append, ih, Nat.ofDigitChars_cons, Nat.ofDigitChars_nil, hLast,
        digitValue, Nat.add_comm]

theorem decimalValue_toDigits (n : Nat) : decimalValue (Nat.toDigits 10 n) = n := by
  rw [← ofDigitChars_eq_decimalValue, Nat.ofDigitChars_ten_toDigits]

/-! ## Numerals -/

/-- The digits are those of `n`, and only zero is written with a zero in front. -/
structure Numeral (n : Nat) (digits : List Char) : Prop where
  nonempty : digits ≠ []
  digit : ∀ c ∈ digits, c.isDigit = true
  value : decimalValue digits = n
  leading : digits.head? = some '0' → digits = ['0']

/-- The decimal digits of a number other than zero start with another digit than zero. -/
theorem toDigits_eq_cons (n : Nat) (h : 0 < n) :
    ∃ d ds, Nat.toDigits 10 n = d :: ds ∧ d ≠ '0' := by
  induction n using Nat.strongRecOn with
  | ind n ih =>
      by_cases hn : n < 10
      · have hDigit : ∀ m < 10, 0 < m → m.digitChar ≠ '0' := by decide
        exact ⟨n.digitChar, [], Nat.toDigits_of_lt_base hn, hDigit n hn h⟩
      · obtain ⟨d, ds, heq, hd⟩ := ih (n / 10) (by omega) (by omega)
        refine ⟨d, ds ++ [(n % 10).digitChar], ?_, hd⟩
        rw [Nat.toDigits_of_base_le (by omega) (by omega), heq, List.cons_append]

theorem numeral_toDigits (n : Nat) : Numeral n (Nat.toDigits 10 n) where
  nonempty := Nat.toDigits_ne_nil
  digit _ hc := Nat.isDigit_of_mem_toDigits (by omega) (by omega) hc
  value := decimalValue_toDigits n
  leading hHead := by
    obtain rfl | hPos := Nat.eq_zero_or_pos n
    · exact Nat.toDigits_zero 10
    · obtain ⟨d, ds, hDigits, hd⟩ := toDigits_eq_cons n hPos
      rw [hDigits] at hHead
      exact absurd (Option.some.inj hHead) hd

namespace Numeral

variable {n : Nat} {digits : List Char}

/-- Without a zero in front, the digits from the last one on are those that `Nat.digits` gives. -/
theorem map_digitValue (h : Numeral n digits) (hZero : digits.head? ≠ some '0') :
    digits.reverse.map digitValue = Nat.digits 10 n := by
  have hSmall : ∀ d ∈ digits.reverse.map digitValue, d < 10 := by
    intro d hd
    rcases List.mem_map.1 hd with ⟨c, hc, rfl⟩
    exact digitValue_lt (h.digit c (List.mem_reverse.1 hc))
  have hLast : ∀ hne : digits.reverse.map digitValue ≠ [],
      (digits.reverse.map digitValue).getLast hne ≠ 0 := by
    intro hne hLast
    rw [List.getLast_map, List.getLast_reverse] at hLast
    -- the digit in front would be a zero
    have hHead : digits.head h.nonempty = '0' := by
      rw [← digitChar_digitValue (h.digit _ (List.head_mem h.nonempty)), hLast]
      rfl
    exact hZero (hHead ▸ List.head?_eq_some_head h.nonempty)
  rw [← Nat.digits_ofDigits 10 (by omega) _ hSmall hLast]
  exact congrArg (Nat.digits 10) h.value

theorem map_digitChar (h : Numeral n digits) :
    digits = (digits.map digitValue).map Nat.digitChar := by
  rw [List.map_map]
  exact (List.map_congr_left fun c hc => digitChar_digitValue (h.digit c hc)).trans
    (List.map_id digits) |>.symm

theorem eq_zero_of_leading (h : Numeral n digits) (hZero : digits.head? = some '0') : n = 0 := by
  rw [← h.value, h.leading hZero]
  rfl

theorem of_zero (h : Numeral 0 digits) : digits = ['0'] := by
  by_cases hZero : digits.head? = some '0'
  · exact h.leading hZero
  · have hNone := h.map_digitValue hZero
    rw [Nat.digits_zero, List.map_eq_nil_iff, List.reverse_eq_nil_iff] at hNone
    exact absurd hNone h.nonempty

/-- A number has one numeral only. -/
theorem unique {digits' : List Char} (h : Numeral n digits) (h' : Numeral n digits') :
    digits = digits' := by
  obtain rfl | hPos := Nat.eq_zero_or_pos n
  · rw [h.of_zero, h'.of_zero]
  · have hZero : digits.head? ≠ some '0' := fun hHead =>
      Nat.ne_of_gt hPos (h.eq_zero_of_leading hHead)
    have hZero' : digits'.head? ≠ some '0' := fun hHead =>
      Nat.ne_of_gt hPos (h'.eq_zero_of_leading hHead)
    have hSame : digits.map digitValue = digits'.map digitValue := by
      rw [← List.reverse_inj, ← List.map_reverse, ← List.map_reverse, h.map_digitValue hZero,
        h'.map_digitValue hZero']
    rw [h.map_digitChar, hSame, ← h'.map_digitChar]

end Numeral

theorem numeral_iff {n : Nat} {text : String} : Numeral n text.toList ↔ text = Nat.repr n := by
  have hRepr : Numeral n (Nat.repr n).toList := by
    rw [Nat.toList_repr]
    exact numeral_toDigits n
  constructor
  · intro h
    exact String.toList_injective (h.unique hRepr)
  · rintro rfl
    exact hRepr

end Text
end MonkeyLang
