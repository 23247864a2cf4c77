import ErDiagram.Number.Rounding

/-!
# Binary floating-point values, exactly

A finite value of the 64-bit binary format is a whole number of *units* of `2 ^ -1074`, the least
positive value.  Not every number of units is a value: above `2 ^ 53` units only the multiples of a
power of two are, so that fifty-three significant bits always suffice, and from `2 ^ 1024` on there
is none.  `Magnitude` holds a number of units together with that fact, and `Magnitude.nearest?`
rounds any quotient to the magnitude nearest to it, a tie to the even one, or finds that it is too
large.  All arithmetic is on natural numbers and exact.

The bound on the bits and the bound on the size are fields of `Magnitude`, so there is no magnitude
that is not a value, and what is proved of values need not ask for it.  The one place where a
magnitude is made is `nearest?`, and what has to be shown there is that rounding to the nearest
multiple of a step gives a number that needs no smaller step: it may reach the next power of two,
but it cannot go beyond (`roundDiv_step_le`).
-/

set_option autoImplicit false

namespace ErDiagram

/-- The number of units in one. -/
def Binary64.unitsPerOne : Nat := 2 ^ 1074

/-- The first number of units that is too large for a finite value. -/
def Binary64.unitLimit : Nat := 2 ^ 2098

/-- The binary logarithm of the step between values at a given number of units. -/
def Binary64.stepLog (units : Nat) : Nat := units.log2 - 52

open Binary64 Number

/-- The absolute value of a finite binary floating-point value. -/
structure Magnitude where
  /-- The value as a number of units of `2 ^ -1074`. -/
  units : Nat
  /-- At most fifty-three significant bits are needed. -/
  step_dvd : 2 ^ stepLog units ∣ units
  /-- The value lies below `2 ^ 1024`. -/
  units_lt : units < unitLimit
  deriving DecidableEq

namespace Magnitude

/-- The multiple nearest to `u / den` of the step that values have there. -/
def onGrid (u den : Nat) : Nat :=
  roundDiv u (den * 2 ^ stepLog (u / den)) * 2 ^ stepLog (u / den)

theorem lt_two_pow_stepLog (n : Nat) : n < 2 ^ (53 + stepLog n) := by
  refine Nat.lt_of_lt_of_le (Nat.lt_log2_self (n := n)) (Nat.pow_le_pow_right (by decide) ?_)
  rw [stepLog]; omega

/-- The multiple of the step that a quotient is rounded to is at most the `2 ^ 53`-th. -/
theorem roundDiv_step_le (u den : Nat) : roundDiv u (den * 2 ^ stepLog (u / den)) ≤ 2 ^ 53 := by
  refine Nat.le_trans (roundDiv_le _ _) (Nat.succ_le_of_lt ?_)
  rw [← Nat.div_div_eq_div_mul]
  refine Nat.div_lt_of_lt_mul ?_
  rw [← Nat.pow_add, Nat.add_comm]
  exact lt_two_pow_stepLog _

theorem step_dvd_onGrid (u den : Nat) : 2 ^ stepLog (onGrid u den) ∣ onGrid u den := by
  have hle := roundDiv_step_le u den
  rw [onGrid]
  generalize stepLog (u / den) = k at hle ⊢
  generalize roundDiv u (den * 2 ^ k) = t at hle ⊢
  rcases Nat.eq_or_lt_of_le hle with rfl | hlt
  · rw [← Nat.pow_add]
    refine Nat.pow_dvd_pow 2 ?_
    rw [stepLog, Nat.log2_two_pow]; omega
  · refine Nat.dvd_trans (Nat.pow_dvd_pow 2 ?_) (Nat.dvd_mul_left _ t)
    rcases Nat.eq_zero_or_pos t with rfl | ht
    · simp [stepLog]
    · have h0 : t * 2 ^ k ≠ 0 := Nat.ne_of_gt (Nat.mul_pos ht (Nat.two_pow_pos k))
      have h1 : (t * 2 ^ k).log2 < 53 + k := by
        rw [Nat.log2_lt h0, Nat.pow_add]
        exact Nat.mul_lt_mul_of_pos_right hlt (Nat.two_pow_pos k)
      rw [stepLog]; omega

/-- The magnitude nearest to `num / den`, a tie going to the one with an even last bit; `none` when
that would be `2 ^ 1024` or more. -/
def nearest? (num den : Nat) : Option Magnitude :=
  let units := onGrid (num * unitsPerOne) den
  if h : units < unitLimit then some ⟨units, step_dvd_onGrid _ _, h⟩ else none

/-- The value times `10 ^ places`, rounded to a whole number. -/
def scaled (m : Magnitude) (places : Nat) : Nat := roundDiv (m.units * 10 ^ places) unitsPerOne

end Magnitude

/-- A binary floating-point value of 64 bits. -/
inductive Binary64 where
  /-- No number. -/
  | nan
  /-- An infinity. -/
  | infinite (negative : Bool)
  /-- A finite value; zero has a sign as well. -/
  | finite (negative : Bool) (magnitude : Magnitude)
  deriving DecidableEq

namespace Binary64

/-- The value nearest to a quotient with a sign; an infinity when it is too large. -/
def ofQuotient (negative : Bool) (num den : Nat) : Binary64 :=
  (Magnitude.nearest? num den).elim (infinite negative) (finite negative)

/-- The value nearest to an integer; `none` when it is too large. -/
def ofInt? (n : Int) : Option Binary64 :=
  (Magnitude.nearest? n.natAbs 1).map (finite (n < 0))

/-- The value rounded to a whole number of thousandths. -/
def roundThousandths : Binary64 → Binary64
  | finite negative m => ofQuotient negative (m.scaled 3) 1000
  | v => v

/-- The value rounded to an integer; only a finite value has one. -/
def roundInt? : Binary64 → Option Int
  | finite negative m => some (if negative then -(m.scaled 0 : Int) else m.scaled 0)
  | _ => none

end Binary64
end ErDiagram
