import ErDiagram.Number
import ErDiagram.Proofs.Number.Nearest

/-!
# Which numbers are too large

No finite value is nearest to a quotient just in case the quotient is at least
`Binary64.overflowBound` (`Magnitude.nearest?_eq_none_iff`): halfway between the largest value and
`2 ^ 1024`, of which the latter would be the even one.  Integers of that size are the numbers that
cannot be written (`Number.toBinary64?_eq_none_iff`).

The bound is not the largest value.  A quotient above the largest value is still rounded down to it,
as long as it is less than halfway to the power of two that would come next; halfway the even one
wins, and that one is not a value.
-/

set_option autoImplicit false

namespace ErDiagram

open Binary64 Number

/-- The least number to which no finite value is nearest. -/
def Binary64.overflowBound : Nat := 2 ^ 1024 - 2 ^ 970

/-- The bound has fifty-four significant bits, all of them set. -/
theorem Binary64.exists_overflowBound_eq :
    ∃ k, k = 970 ∧ overflowBound = (2 ^ 54 - 1) * 2 ^ k :=
  ⟨970, rfl, by rw [overflowBound]; decide +kernel⟩

/-- An even number is reached by rounding as soon as the quotient is at most half of one below. -/
theorem Number.le_roundDiv_iff {num den m : Nat} (hden : 0 < den) (hm : m % 2 = 0) :
    m ≤ roundDiv num den ↔ 2 * (m * den) ≤ 2 * num + den := by
  have hnum := Nat.div_add_mod num den
  have hmod := Nat.mod_lt num hden
  rw [Nat.mul_comm] at hnum
  have hsucc : (num / den + 1) * den = num / den * den + den := by rw [Nat.add_mul, Nat.one_mul]
  rcases Nat.lt_trichotomy m (num / den + 1) with hlt | heq | hgt
  · have hle : m * den ≤ num / den * den := Nat.mul_le_mul_right den (Nat.le_of_lt_succ hlt)
    exact iff_of_true (Nat.le_trans (Nat.le_of_lt_succ hlt) (div_le_roundDiv num den)) (by omega)
  · -- the quotient lies below `m`, and a tie goes to `m`
    rw [heq, hsucc, roundDiv]
    split
    · omega
    · split <;> omega
  · have hle : (num / den + 2) * den ≤ m * den := Nat.mul_le_mul_right den hgt
    rw [Nat.add_mul] at hle
    refine iff_of_false (Nat.not_le.2 (Nat.lt_of_le_of_lt (roundDiv_le num den) hgt)) (by omega)

namespace Magnitude

/-- A quotient is rounded to `2 ^ (53 + k)` or more just in case it is at least halfway between this
number and the value before it. -/
theorem two_pow_le_onGrid_iff {u den : Nat} (hden : 0 < den) (k : Nat) :
    2 ^ (53 + k) ≤ onGrid u den ↔ (2 ^ 54 - 1) * (den * 2 ^ k) ≤ 2 * u := by
  have hpow : 0 < den * 2 ^ k := Nat.mul_pos hden (Nat.two_pow_pos k)
  have hscale (n : Nat) : 2 ^ (n + k) * den = 2 ^ n * (den * 2 ^ k) := by
    rw [Nat.pow_add, Nat.mul_assoc, Nat.mul_comm _ den]
  rcases Nat.lt_trichotomy (stepLog (u / den)) k with hlt | heq | hgt
  · -- the quotient lies below the power of two before
    have hquotient : u < 2 ^ (52 + k) * den := by
      refine (Nat.div_lt_iff_lt_mul hden).1 (Nat.lt_of_lt_of_le (lt_two_pow_stepLog _) ?_)
      exact Nat.pow_le_pow_right (by decide) (by omega)
    rw [hscale] at hquotient
    refine iff_of_false (Nat.not_le.2 ?_) (by omega)
    rw [onGrid, Nat.pow_add]
    refine Nat.lt_of_le_of_lt (Nat.mul_le_mul_right _ (roundDiv_step_le u den)) ?_
    exact Nat.mul_lt_mul_of_pos_left (Nat.pow_lt_pow_right (by decide) hlt) (by decide)
  · rw [onGrid, heq, Nat.pow_add, Nat.mul_le_mul_right_iff (Nat.two_pow_pos k),
      le_roundDiv_iff hpow (by decide)]
    omega
  · -- the quotient lies above the power of two
    have hpos := Nat.zero_lt_of_lt hgt
    have hstep : 2 ^ (53 + k) ≤ 2 ^ (52 + stepLog (u / den)) :=
      Nat.pow_le_pow_right (by decide) (by omega)
    have hquotient : 2 ^ (53 + k) * den ≤ u :=
      (Nat.le_div_iff_mul_le hden).1 (Nat.le_trans hstep (two_pow_le_of_stepLog hpos))
    rw [hscale] at hquotient
    refine iff_of_true (Nat.le_trans hstep ?_) (by omega)
    rw [onGrid, Nat.pow_add]
    exact Nat.mul_le_mul_right _ (roundDiv_step_bounds rfl hpos).1

theorem nearest?_eq_none_iff_onGrid {num den : Nat} :
    nearest? num den = none ↔ unitLimit ≤ onGrid (num * unitsPerOne) den := by
  rw [nearest?]
  split
  · next hlt => exact iff_of_false (Option.some_ne_none _) (Nat.not_le.2 hlt)
  · next hge => exact iff_of_true rfl (Nat.not_lt.1 hge)

/-- **No finite value is nearest to a quotient** just in case the quotient reaches the bound. -/
theorem nearest?_eq_none_iff {num den : Nat} (hden : 0 < den) :
    nearest? num den = none ↔ overflowBound * den ≤ num := by
  obtain ⟨e, he, hunits⟩ := exists_unitsPerOne_eq
  obtain ⟨l, hl, hlimit⟩ := exists_unitLimit_eq
  obtain ⟨b, hb, hbound⟩ := exists_overflowBound_eq
  have hleft : (2 ^ 54 - 1) * (den * 2 ^ (b + e + 1)) =
      (2 ^ 54 - 1) * 2 ^ b * den * 2 ^ (e + 1) := by
    rw [Nat.add_assoc, Nat.pow_add, Nat.mul_assoc, Nat.mul_assoc, Nat.mul_left_comm den]
  have hright : 2 * (num * 2 ^ e) = num * 2 ^ (e + 1) := by
    rw [Nat.pow_succ', Nat.mul_left_comm]
  rw [nearest?_eq_none_iff_onGrid, hlimit, show l = 53 + (b + e + 1) by omega,
    two_pow_le_onGrid_iff hden, hunits, hbound, hleft, hright,
    Nat.mul_le_mul_right_iff (Nat.two_pow_pos (e + 1))]

end Magnitude

/-! ## Numbers that cannot be written

An infinity is no integer and can be written; among numbers it is only integers that have no value
nearest to them. -/

namespace Number

/-- A number is an integer to which no finite floating-point value is nearest. -/
def Overflows : Number → Prop
  | int k => overflowBound ≤ k.natAbs
  | double _ => False

theorem toBinary64?_eq_none_iff {n : Number} : n.toBinary64? = none ↔ n.Overflows := by
  cases n with
  | int k =>
    rw [toBinary64?, ofInt?, Option.map_eq_none_iff, Magnitude.nearest?_eq_none_iff Nat.one_pos,
      Nat.mul_one]
    rfl
  | double v => exact iff_of_false (Option.some_ne_none v) id

end Number

end ErDiagram
