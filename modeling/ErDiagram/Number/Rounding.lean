/-!
# Rounding a quotient to the nearest natural number

Halfway cases go to the even neighbour.  Every number that this library reads or writes is rounded
by this one function: once onto the grid of binary values, once onto a grid of decimal places.

The quotient is never formed: what is compared with one half is twice the remainder with the
denominator.  No denominator is ever zero.
-/

set_option autoImplicit false

namespace ErDiagram

/-- Powers of natural numbers mean those of the core library, whatever else is in scope. -/
@[default_instance 20000]
scoped instance (priority := 20000) natPow : Pow Nat Nat := instPowNat

namespace Number

/-- The natural number nearest to `num / den`; of two equally near, the even one. -/
def roundDiv (num den : Nat) : Nat :=
  let q := num / den
  let twice := 2 * (num % den)
  if twice < den then q
  else if den < twice then q + 1
  else q + q % 2

theorem div_le_roundDiv (num den : Nat) : num / den ≤ roundDiv num den := by
  rw [roundDiv]; split
  · exact Nat.le_refl _
  · split <;> omega

theorem roundDiv_le (num den : Nat) : roundDiv num den ≤ num / den + 1 := by
  rw [roundDiv]; split
  · omega
  · split <;> omega

/-- A quotient without remainder is its own nearest number. -/
@[simp]
theorem roundDiv_mul_right (n : Nat) {den : Nat} (h : 0 < den) : roundDiv (n * den) den = n := by
  simp [roundDiv, h]

end Number

end ErDiagram
