import ErDiagram.Number.Binary64

/-!
# Which numbers rounding leaves alone

A quotient that is a value is its own nearest value (`Magnitude.nearest?_of_eq`).  From that follow
the two facts that numbers in a text rest on.  An integer is its own nearest value just in case
fifty-three bits suffice for it (`Magnitude.scaled_zero_eq_iff`), and whatever a value is rounded to
is such an integer.  Thousandths of a value that is nearest to some thousandths lead back to it
(`Magnitude.nearest?_scaled_three`).

The numbers in these proofs are far too large to be computed: one is `2 ^ 1074` units.  Therefore
the exponents are kept under names (`exists_unitsPerOne_eq`), the facts are proved for any exponent,
and only inequalities between exponents are left to arithmetic.
-/

set_option autoImplicit false

namespace ErDiagram

open Binary64 Number

/-! ## Rounding a quotient

The nearest number is told by an inequality that has no division in it, and this is the form in
which later proofs use it. -/

namespace Number

variable {num den q : Nat}

/-- The one number that is less than half of one away from a quotient is nearest to it. -/
theorem roundDiv_eq (hlo : 2 * (q * den) < 2 * num + den) (hhi : 2 * num < 2 * (q * den) + den) :
    roundDiv num den = q := by
  have hden : 0 < den := by omega
  have hnum := Nat.div_add_mod num den
  have hmod := Nat.mod_lt num hden
  rw [Nat.mul_comm] at hnum
  rcases Nat.lt_trichotomy (num / den) q with hlt | heq | hgt
  · -- the quotient lies below `q`, so it is the number before it
    have hle : (num / den + 1) * den ≤ q * den := Nat.mul_le_mul_right den hlt
    rw [Nat.add_mul, Nat.one_mul] at hle
    have hq : num / den + 1 = q := by
      refine Nat.le_antisymm hlt (Nat.le_of_not_lt fun h ↦ ?_)
      have : (num / den + 2) * den ≤ q * den := Nat.mul_le_mul_right den h
      rw [Nat.add_mul] at this
      omega
    rw [roundDiv, if_neg (by omega), if_pos (by omega), hq]
  · rw [roundDiv, if_pos (by rw [heq] at hnum; omega), heq]
  · have : (q + 1) * den ≤ num / den * den := Nat.mul_le_mul_right den hgt
    rw [Nat.add_mul, Nat.one_mul] at this
    omega

/-- Rounding moves a quotient by at most half of one. -/
theorem roundDiv_near (num : Nat) (hden : 0 < den) :
    2 * (roundDiv num den * den) ≤ 2 * num + den ∧
      2 * num ≤ 2 * (roundDiv num den * den) + den := by
  have hnum := Nat.div_add_mod num den
  have hmod := Nat.mod_lt num hden
  rw [Nat.mul_comm] at hnum
  have hsucc : (num / den + 1) * den = num / den * den + den := by rw [Nat.add_mul, Nat.one_mul]
  rw [roundDiv]
  split
  · omega
  split
  · rw [hsucc]
    omega
  · rcases Nat.mod_two_eq_zero_or_one (num / den) with h | h
    · rw [h, Nat.add_zero]
      omega
    · rw [h, hsucc]
      omega

end Number

/-! ## Values on the grid

A number of units is on the grid of values if it is a multiple of the step there.  As the unit is a
power of two, multiplying by the number of units in one shifts the bits of an integer and does not
change how many it has. -/

namespace Binary64

/-- The number of units in one is a power of two, of which the exponent is better left unseen. -/
theorem exists_unitsPerOne_eq : ∃ k, k = 1074 ∧ unitsPerOne = 2 ^ k :=
  ⟨1074, rfl, by rw [unitsPerOne]⟩

theorem exists_unitLimit_eq : ∃ k, k = 2098 ∧ unitLimit = 2 ^ k := ⟨2098, rfl, by rw [unitLimit]⟩

theorem unitsPerOne_pos : 0 < unitsPerOne := by
  obtain ⟨k, _, hk⟩ := exists_unitsPerOne_eq
  rw [hk]
  exact Nat.two_pow_pos k

theorem log2_mul_two_pow {n : Nat} (hn : n ≠ 0) (k : Nat) :
    (n * 2 ^ k).log2 = n.log2 + k := by
  have hpos : n * 2 ^ k ≠ 0 := Nat.mul_ne_zero hn (Nat.ne_of_gt (Nat.two_pow_pos k))
  refine (Nat.log2_eq_iff hpos).2 ⟨?_, ?_⟩
  · rw [Nat.pow_add]
    exact Nat.mul_le_mul_right _ (Nat.log2_self_le hn)
  · rw [Nat.add_right_comm, Nat.pow_add]
    exact Nat.mul_lt_mul_of_pos_right Nat.lt_log2_self (Nat.two_pow_pos k)

theorem log2_mul_unitsPerOne {n : Nat} (hn : n ≠ 0) : (n * unitsPerOne).log2 = n.log2 + 1074 := by
  obtain ⟨k, hk, hunits⟩ := exists_unitsPerOne_eq
  rw [hunits, log2_mul_two_pow hn, hk]

end Binary64

namespace Magnitude

theorem ext {m n : Magnitude} (h : m.units = n.units) : m = n := by
  obtain ⟨u, _, _⟩ := m
  obtain ⟨v, _, _⟩ := n
  obtain rfl : u = v := h
  rfl

theorem nearest?_of_onGrid {num den : Nat} {m : Magnitude}
    (h : onGrid (num * unitsPerOne) den = m.units) : nearest? num den = some m := by
  rw [nearest?, dif_pos (by rw [h]; exact m.units_lt)]
  exact congrArg some (ext h)

theorem units_of_nearest? {num den : Nat} {m : Magnitude} (h : nearest? num den = some m) :
    m.units = onGrid (num * unitsPerOne) den := by
  rw [nearest?] at h
  split at h
  · obtain rfl := Option.some.inj h
    rfl
  · cases h

theorem onGrid_mul {u den : Nat} (hden : 0 < den) (h : 2 ^ stepLog u ∣ u) :
    onGrid (u * den) den = u := by
  obtain ⟨t, ht⟩ := h
  rw [onGrid, Nat.mul_div_cancel u hden]
  have hquotient : u * den = t * (den * 2 ^ stepLog u) := by
    rw [Nat.mul_comm u, Nat.mul_left_comm, Nat.mul_comm t, ← ht]
  rw [hquotient, roundDiv_mul_right t (Nat.mul_pos hden (Nat.two_pow_pos _)), Nat.mul_comm, ← ht]

/-- A quotient that is a value is its own nearest value. -/
theorem nearest?_of_eq {num den : Nat} (hden : 0 < den) {m : Magnitude}
    (h : num * unitsPerOne = m.units * den) : nearest? num den = some m :=
  nearest?_of_onGrid (by rw [h, onGrid_mul hden m.step_dvd])

/-! ## Integers

From `2 ^ 53` on all values are integers, and below that all integers are values.  So the rounding
of a value to an integer never rounds off a bit that counts: either the value is an integer already,
or the result is so small that it is a value whatever it is. -/

/-- An integer is a value as far as its number of bits goes. -/
def IsShort (n : Nat) : Prop := 2 ^ (n.log2 - 52) ∣ n

theorem isShort_of_le {n : Nat} (h : n ≤ 2 ^ 53) : IsShort n := by
  rcases Nat.lt_or_eq_of_le h with hlt | rfl
  · rcases Nat.eq_zero_or_pos n with rfl | hn
    · exact Nat.dvd_zero _
    · have := (Nat.log2_lt (Nat.ne_of_gt hn)).2 hlt
      rw [IsShort, Nat.sub_eq_zero_of_le (by omega)]
      exact Nat.one_dvd n
  · rw [IsShort, Nat.log2_two_pow]
    exact Nat.pow_dvd_pow 2 (by decide)

theorem step_dvd_mul_unitsPerOne_iff {n : Nat} :
    2 ^ stepLog (n * unitsPerOne) ∣ n * unitsPerOne ↔ IsShort n := by
  rcases Nat.eq_zero_or_pos n with rfl | hn
  · simp [IsShort]
  have hlog := log2_mul_unitsPerOne (Nat.ne_of_gt hn)
  obtain ⟨k, hk, hunits⟩ := exists_unitsPerOne_eq
  rw [← hk] at hlog
  rcases Nat.lt_or_ge n.log2 52 with hlt | hge
  · refine iff_of_true ?_ (isShort_of_le (Nat.le_of_lt ?_))
    · rw [hunits] at hlog ⊢
      refine Nat.dvd_mul_left_of_dvd (Nat.pow_dvd_pow 2 ?_) n
      rw [stepLog, hlog]
      omega
    · exact (Nat.log2_lt (Nat.ne_of_gt hn)).1 (Nat.lt_succ_of_lt hlt)
  · have hstep : stepLog (n * unitsPerOne) = n.log2 - 52 + k := by
      rw [stepLog, hlog]
      omega
    rw [hstep, Nat.pow_add, ← hunits]
    exact Nat.mul_dvd_mul_iff_right unitsPerOne_pos

theorem scaled_zero_of_units {m : Magnitude} {n : Nat} (h : m.units = n * unitsPerOne) :
    m.scaled 0 = n := by
  rw [scaled, h, Nat.pow_zero, Nat.mul_one, roundDiv_mul_right n unitsPerOne_pos]

/-- Values from `2 ^ 53` on are integers. -/
theorem exists_units_eq {m : Magnitude} (h : 2 ^ 53 * unitsPerOne ≤ m.units) :
    ∃ n, m.units = n * unitsPerOne := by
  have hne : m.units ≠ 0 := by
    have : 0 < 2 ^ 53 * unitsPerOne := Nat.mul_pos (by decide) unitsPerOne_pos
    omega
  obtain ⟨k, _, hunits⟩ := exists_unitsPerOne_eq
  rw [hunits] at h ⊢
  have hlog : 53 + k ≤ m.units.log2 := (Nat.le_log2 hne).2 (by rwa [Nat.pow_add])
  have hstep : k ≤ stepLog m.units := by
    rw [stepLog]
    omega
  obtain ⟨t, ht⟩ := Nat.dvd_trans (Nat.pow_dvd_pow 2 hstep) m.step_dvd
  exact ⟨t, by rw [Nat.mul_comm]; exact ht⟩

theorem scaled_zero_le {m : Magnitude} (h : m.units < 2 ^ 53 * unitsPerOne) :
    m.scaled 0 ≤ 2 ^ 53 := by
  rw [scaled, Nat.pow_zero, Nat.mul_one]
  refine Nat.le_trans (roundDiv_le _ _) (Nat.succ_le_of_lt (Nat.div_lt_of_lt_mul ?_))
  rwa [Nat.mul_comm]

/-- Integers of at most fifty-three bits are below the limit. -/
theorem mul_unitsPerOne_lt {n : Nat} (h : n ≤ 2 ^ 53) : n * unitsPerOne < unitLimit := by
  refine Nat.lt_of_le_of_lt (Nat.mul_le_mul_right _ h) ?_
  obtain ⟨k, hk, hunits⟩ := exists_unitsPerOne_eq
  obtain ⟨l, hl, hunitLimit⟩ := exists_unitLimit_eq
  rw [hunits, hunitLimit, ← Nat.pow_add]
  exact Nat.pow_lt_pow_right (by decide) (by omega)

/-- What a value is rounded to is an integer of few bits below the limit. -/
theorem isShort_scaled_zero (m : Magnitude) :
    IsShort (m.scaled 0) ∧ m.scaled 0 * unitsPerOne < unitLimit := by
  rcases Nat.lt_or_ge m.units (2 ^ 53 * unitsPerOne) with hlt | hge
  · have hle := scaled_zero_le hlt
    exact ⟨isShort_of_le hle, mul_unitsPerOne_lt hle⟩
  · obtain ⟨n, hn⟩ := exists_units_eq hge
    have hdvd := m.step_dvd
    have hlimit := m.units_lt
    rw [scaled_zero_of_units hn]
    rw [hn] at hdvd hlimit
    exact ⟨step_dvd_mul_unitsPerOne_iff.1 hdvd, hlimit⟩

/-! ### Integers that are values

An integer that has few enough bits and is below the limit is its own nearest value, and whatever a
value is rounded to is one of these. -/

/-- What a value is rounded to has not too many digits. -/
theorem exists_scaled_zero_lt (m : Magnitude) : ∃ k, k = 2098 ∧ m.scaled 0 < 10 ^ k := by
  obtain ⟨k, hk, hlimit⟩ := exists_unitLimit_eq
  have hlt := (isShort_scaled_zero m).2
  rw [hlimit] at hlt
  have hle := Nat.le_mul_of_pos_right (m.scaled 0) unitsPerOne_pos
  exact ⟨k, hk, Nat.lt_of_lt_of_le (Nat.lt_of_le_of_lt hle hlt)
    (Nat.pow_le_pow_left (by decide) k)⟩

/-- An integer of few bits below the limit is its own nearest value. -/
theorem exists_nearest?_of_isShort {n : Nat} (h : IsShort n)
    (hlimit : n * unitsPerOne < unitLimit) : ∃ m, nearest? n 1 = some m ∧ m.scaled 0 = n := by
  let m : Magnitude := ⟨n * unitsPerOne, step_dvd_mul_unitsPerOne_iff.2 h, hlimit⟩
  exact ⟨m, nearest?_of_eq Nat.one_pos (Nat.mul_one _).symm, scaled_zero_of_units rfl⟩

/-- **An integer is its own nearest value** just in case fifty-three bits suffice for it. -/
theorem scaled_zero_eq_iff {n : Nat} {m : Magnitude} (h : nearest? n 1 = some m) :
    m.scaled 0 = n ↔ IsShort n := by
  refine ⟨fun heq ↦ heq ▸ (isShort_scaled_zero m).1, fun hs ↦ scaled_zero_of_units ?_⟩
  have := onGrid_mul Nat.one_pos (step_dvd_mul_unitsPerOne_iff.2 hs)
  rwa [Nat.mul_one, ← units_of_nearest? h] at this

/-! ## Thousandths

A value that is nearest to some thousandths need not be equal to them.  Where values are closer to
each other than thousandths, rounding it finds the same thousandths again.  Where they are further
apart it may find others, but the value nearest to those is still the same one, because they lie
within its half of the step on either side.  Only at a power of two, where the step changes, is that
not enough; there the value is an integer, and its thousandths are exact. -/

/-- A grid point that is no power of two is on the grid of every quotient near to it. -/
theorem onGrid_of_near {num den t k : Nat} (hlo : 2 ^ 52 < t) (hhi : t < 2 ^ 53)
    (hbelow : 2 * (t * 2 ^ k * den) < 2 * num + den * 2 ^ k)
    (habove : 2 * num < 2 * (t * 2 ^ k * den) + den * 2 ^ k) : onGrid num den = t * 2 ^ k := by
  have hden : 0 < den := by
    refine Nat.pos_of_ne_zero ?_
    rintro rfl
    omega
  have hproduct : t * 2 ^ k * den = t * (den * 2 ^ k) := by rw [Nat.mul_assoc, Nat.mul_comm den]
  have hlower : (2 ^ 52 + 1) * (den * 2 ^ k) ≤ t * (den * 2 ^ k) := Nat.mul_le_mul_right _ hlo
  have hupper : (t + 1) * (den * 2 ^ k) ≤ 2 ^ 53 * (den * 2 ^ k) := Nat.mul_le_mul_right _ hhi
  rw [Nat.add_mul, Nat.one_mul] at hlower hupper
  rw [hproduct] at hbelow habove
  -- the quotient lies between the same two powers of two
  have hge : 2 ^ (52 + k) ≤ num / den := by
    rw [Nat.le_div_iff_mul_le hden, Nat.pow_add, Nat.mul_assoc, Nat.mul_comm _ den]
    omega
  have hlt : num / den < 2 ^ (53 + k) := by
    rw [Nat.div_lt_iff_lt_mul hden, Nat.pow_add, Nat.mul_assoc, Nat.mul_comm _ den]
    omega
  have hne : num / den ≠ 0 := Nat.ne_of_gt (Nat.lt_of_lt_of_le (Nat.two_pow_pos _) hge)
  have hstep : stepLog (num / den) = k := by
    have := (Nat.log2_eq_iff hne).2 ⟨hge, by rwa [Nat.add_right_comm]⟩
    rw [stepLog, this, Nat.add_sub_cancel_left]
  rw [onGrid, hstep, roundDiv_eq (q := t) hbelow habove]

/-- Where there is a step, there are fifty-three significant bits. -/
theorem two_pow_le_of_stepLog {n : Nat} (h : 0 < stepLog n) : 2 ^ (52 + stepLog n) ≤ n := by
  rw [stepLog] at h ⊢
  have hne : n ≠ 0 := by
    rintro rfl
    rw [Nat.log2_zero] at h
    omega
  exact (Nat.le_log2 hne).1 (by omega)

/-- Between two powers of two the values are multiples of their step by numbers of fifty-three
bits. -/
theorem roundDiv_step_bounds {num den k : Nat} (hk : stepLog (num / den) = k) (hpos : 0 < k) :
    2 ^ 52 ≤ roundDiv num (den * 2 ^ k) ∧ roundDiv num (den * 2 ^ k) ≤ 2 ^ 53 := by
  subst hk
  refine ⟨Nat.le_trans ?_ (div_le_roundDiv _ _), roundDiv_step_le num den⟩
  rw [← Nat.div_div_eq_div_mul, Nat.le_div_iff_mul_le (Nat.two_pow_pos _), ← Nat.pow_add]
  exact two_pow_le_of_stepLog hpos

/-- The thousandths of an integer are exact. -/
theorem nearest?_scaled_three_of_units {m : Magnitude} {n : Nat}
    (h : m.units = n * unitsPerOne) : nearest? (m.scaled 3) 1000 = some m := by
  have hpower : m.scaled 3 = n * 10 ^ 3 := by
    rw [scaled, h, Nat.mul_right_comm, roundDiv_mul_right _ unitsPerOne_pos]
  have hscaled : m.scaled 3 = n * 1000 := hpower
  exact nearest?_of_eq (by decide) (by rw [hscaled, h, Nat.mul_right_comm])

/-- **The thousandths of a value nearest to some thousandths lead back to it.** -/
theorem nearest?_scaled_three {n : Nat} {m : Magnitude} (h : nearest? n 1000 = some m) :
    nearest? (m.scaled 3) 1000 = some m := by
  obtain ⟨e, he, hunits⟩ := exists_unitsPerOne_eq
  have hgrid := units_of_nearest? h
  rw [onGrid] at hgrid
  generalize hk : stepLog (n * unitsPerOne / 1000) = k at hgrid
  generalize ht : roundDiv (n * unitsPerOne) (1000 * 2 ^ k) = t at hgrid
  have hpow : 0 < 2 ^ k := Nat.two_pow_pos k
  have hden : 0 < 1000 * 2 ^ k := by omega
  have hnear := roundDiv_near (n * unitsPerOne) hden
  have hproduct : t * (1000 * 2 ^ k) = m.units * 1000 := by
    rw [hgrid, Nat.mul_comm 1000, Nat.mul_assoc]
  rw [ht, hproduct] at hnear
  have hscaled : m.scaled 3 = roundDiv (m.units * 1000) unitsPerOne := rfl
  rcases Nat.lt_or_ge k 1065 with hsmall | hlarge
  · -- the step is less than a thousandth, so rounding finds the thousandths again
    have hstep : 1024 * 2 ^ k ≤ unitsPerOne := by
      rw [hunits, show 1024 = 2 ^ 10 from rfl, ← Nat.pow_add]
      exact Nat.pow_le_pow_right (by decide) (by omega)
    rw [hscaled, roundDiv_eq (q := n) (by omega) (by omega), h]
  · -- the step is larger, so it is enough that the thousandths lie within half a step
    have hstep : unitsPerOne ≤ 512 * 2 ^ k := by
      rw [hunits, show 512 = 2 ^ 9 from rfl, ← Nat.pow_add]
      exact Nat.pow_le_pow_right (by decide) (by omega)
    have hback := roundDiv_near (m.units * 1000) unitsPerOne_pos
    rw [← hscaled] at hback
    obtain ⟨hlo, hhi⟩ := roundDiv_step_bounds hk (by omega)
    rw [ht] at hlo hhi
    -- at a power of two the width of the steps changes, so the two ends are taken apart: there
    -- the value is a whole number
    have hpower {j : Nat} (hj : 52 ≤ j) (htj : t = 2 ^ j) :
        nearest? (m.scaled 3) 1000 = some m := by
      refine nearest?_scaled_three_of_units (n := 2 ^ (j + k - e)) ?_
      rw [hgrid, htj, hunits, ← Nat.pow_add, ← Nat.pow_add]
      exact congrArg _ (by omega)
    rcases Nat.lt_or_eq_of_le hlo with hlo | hlo
    · rcases Nat.lt_or_eq_of_le hhi with hhi | hhi
      · refine nearest?_of_onGrid ?_
        rw [hgrid] at hback
        rw [hgrid]
        exact onGrid_of_near hlo hhi (by omega) (by omega)
      · exact hpower (by decide) hhi
    · exact hpower (Nat.le_refl 52) hlo.symm

end Magnitude

end ErDiagram
