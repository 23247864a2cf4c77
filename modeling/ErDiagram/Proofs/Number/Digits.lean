import ErDiagram.Number.Decimal

/-!
# Decimal digits and the numbers they stand for

Digits that are written for a number stand for that number, also with a fraction of a fixed width
behind them (`ofDigits_append_padded`).

Digits are those that the core library writes for a natural number, and what it proves of them is
what is used here, under the names of this library.
-/

set_option autoImplicit false

namespace ErDiagram.Number

theorem digits_eq_toDigits (n : Nat) : digits n = Nat.toDigits 10 n := Nat.toList_repr

theorem ofDigits_eq_ofDigitChars (ds : List Char) : ofDigits ds = Nat.ofDigitChars 10 ds 0 := rfl

theorem isDigit_of_mem_digits {n : Nat} {c : Char} (h : c ∈ digits n) : c.isDigit = true := by
  rw [digits_eq_toDigits] at h
  exact Nat.isDigit_of_mem_toDigits (by decide) (by decide) h

theorem digits_ne_nil (n : Nat) : digits n ≠ [] := by
  rw [digits_eq_toDigits]
  exact Nat.toDigits_ne_nil

theorem length_digits_le {n width : Nat} (hn : n < 10 ^ width) (hw : 0 < width) :
    (digits n).length ≤ width := by
  rw [digits_eq_toDigits]
  exact (Nat.length_toDigits_le_iff (by decide) hw).2 hn

@[simp]
theorem ofDigits_digits (n : Nat) : ofDigits (digits n) = n := by
  rw [digits_eq_toDigits, ofDigits_eq_ofDigitChars, Nat.ofDigitChars_ten_toDigits]

theorem isDigit_of_mem_padded {width n : Nat} {c : Char} (h : c ∈ padded width n) :
    c.isDigit = true := by
  rcases List.mem_append.1 h with h | h
  · rw [List.eq_of_mem_replicate h]
    decide
  · exact isDigit_of_mem_digits h

theorem length_padded {width n : Nat} (hn : n < 10 ^ width) (hw : 0 < width) :
    (padded width n).length = width := by
  have := length_digits_le hn hw
  rw [padded, List.length_append, List.length_replicate]
  omega

/-- A whole number and a fraction of a fixed width stand for their sum. -/
theorem ofDigits_append_padded {width n : Nat} (m : Nat) (hn : n < 10 ^ width) (hw : 0 < width) :
    ofDigits (digits m ++ padded width n) = m * 10 ^ width + n := by
  have hpadded : Nat.ofDigitChars 10 (padded width n) 0 = n := by
    rw [padded, Nat.ofDigitChars_append, Nat.ofDigitChars_replicate_zero, Nat.mul_zero,
      ← ofDigits_eq_ofDigitChars, ofDigits_digits]
  rw [ofDigits_eq_ofDigitChars, Nat.ofDigitChars_append, ← ofDigits_eq_ofDigitChars,
    ofDigits_digits, Nat.ofDigitChars_eq_ofDigitChars_zero, hpadded, length_padded hn hw,
    Nat.mul_comm]

end ErDiagram.Number
