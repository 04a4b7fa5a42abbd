import Abacus.Proofs.Number.Nearest

/-!
# Rounding to nearest, ties to even

Rounding was computed, in `nearestMagnitude`, and it was described by the interval
of reals that round to a number, in `Covers`.  The third reading is the definition
itself: a value rounds to a number if no other is nearer, and if the number is even
in case another one is as near (`Binary64.Nearest`).  Infinity takes part as the
power of two above all finite numbers, which is what the overflow rule amounts to.

A value in the interval of a number rounds to it (`Covers.nearest`), and if the number is
finite and not zero, nothing else does (`Nearest.covers`).  That rests on the gaps between
neighbouring numbers, which are one unit above a number and twice the reach of its
interval below it.  And a value rounds to one number at most
(`Nearest.unique`), since between two even numbers there is an odd one.
-/

namespace Abacus

namespace Binary64

/-! ## The line of numbers -/

/-- The absolute value of a number.  That of infinity is the next power of two. -/
def size (x : Binary64) : ℚ := x.significand * 2 ^ x.binaryExponent

/-- The value rounds to the number, up to the sign. -/
structure Nearest (x : Binary64) (v : ℚ) : Prop where
  /-- No other number is nearer. -/
  least : ∀ y : Binary64, y.isNaN = false → |v - x.size| ≤ |v - y.size|
  /-- If another one is as near, the number is even. -/
  even : ∀ y : Binary64, y.isNaN = false → y.size ≠ x.size → |v - y.size| = |v - x.size| →
    x.significand % 2 = 0

theorem exponentField_le {x y : Binary64} (below : x.magnitude ≤ y.magnitude) :
    x.exponentField ≤ y.exponentField :=
  max_le_max_right 1 (Nat.div_le_div_right below)

/-- The numbers next to a number are a unit above it and twice its reach below it. -/
theorem size_next {x y : Binary64} (next : y.magnitude = x.magnitude + 1) :
    y.size = x.size + 2 ^ x.binaryExponent ∧
      x.size = y.size - 2 * y.reach * 2 ^ y.binaryExponent := by
  have low := x.magnitude_eq
  have high := y.magnitude_eq
  have small := x.significand_lt
  have small' := y.significand_lt
  have exponent := x.exponentField_pos
  have exponent' := exponentField_le (by omega : x.magnitude ≤ y.magnitude)
  have normal := y.le_significand
  by_cases same : y.exponentField = x.exponentField
  · -- the significand goes up by one, and the upper number is not a power of two
    have shared : y.binaryExponent = x.binaryExponent := by
      unfold binaryExponent
      rw [same]
    have up : y.significand = x.significand + 1 := by
      rw [same] at high
      omega
    have inside : y.reach = 1 / 2 := by
      have normal' := x.le_significand
      refine if_neg ?_
      omega
    rw [inside, size, size, shared, up]
    push_cast
    exact ⟨by ring, by ring⟩
  · -- the significand is full, and carries into the next power of two
    have step : y.exponentField = x.exponentField + 1 := by omega
    have full : x.significand = 2 ^ 53 - 1 ∧ y.significand = 2 ^ 52 := by
      have := normal (by omega)
      rw [step] at high
      omega
    have edge : y.reach = 1 / 4 := if_pos ⟨by omega, by omega⟩
    have double : (2 : ℚ) ^ y.binaryExponent = 2 * 2 ^ x.binaryExponent := by
      have up : y.binaryExponent = 1 + x.binaryExponent := by
        unfold binaryExponent
        omega
      rw [up, zpow_add₀ (by norm_num), zpow_one]
    rw [edge, size, size, double, full.1, full.2]
    norm_num
    exact ⟨by ring, by ring⟩

theorem exists_magnitude {m : ℕ} (bound : m < signBit) : ∃ y : Binary64, y.magnitude = m :=
  ⟨_, (ofMagnitude_false bound).2⟩

theorem size_congr {x y : Binary64} (same : x.magnitude = y.magnitude) : x.size = y.size := by
  unfold size significand binaryExponent exponentField
  rw [same]

/-- The line of numbers goes up, from each number to the next. -/
theorem size_le_size {x y : Binary64} (le : x.magnitude ≤ y.magnitude) : x.size ≤ y.size := by
  obtain ⟨steps, apart⟩ := Nat.exists_eq_add_of_le le
  induction steps generalizing y with
  | zero => exact (size_congr apart.symm).le
  | succ steps ih =>
    have bound := y.magnitude_lt
    obtain ⟨z, before⟩ := exists_magnitude (by omega : x.magnitude + steps < signBit)
    have step := (size_next (by omega : y.magnitude = z.magnitude + 1)).1
    have unit := two_zpow_pos z.binaryExponent
    linarith [ih (y := z) (by omega) before]

/-- A larger number is larger by a unit at least. -/
theorem size_add_unit_le {x y : Binary64} (above : x.magnitude < y.magnitude) :
    x.size + 2 ^ x.binaryExponent ≤ y.size := by
  have bound := y.magnitude_lt
  obtain ⟨z, next⟩ := exists_magnitude (by omega : x.magnitude + 1 < signBit)
  rw [← (size_next next).1]
  exact size_le_size (by omega)

theorem size_lt_size {x y : Binary64} (below : x.magnitude < y.magnitude) : x.size < y.size := by
  have gap := size_add_unit_le below
  have unit := two_zpow_pos x.binaryExponent
  linarith

theorem size_inj {x y : Binary64} : x.size = y.size ↔ x.magnitude = y.magnitude := by
  constructor
  · intro same
    rcases Nat.lt_trichotomy x.magnitude y.magnitude with below | equal | above
    · exact absurd same (size_lt_size below).ne
    · exact equal
    · exact absurd same (size_lt_size above).ne'
  · exact size_congr

/-- A smaller number is smaller by twice the reach of the rounding interval at least. -/
theorem size_le_sub_reach {x y : Binary64} (below : y.magnitude < x.magnitude) :
    y.size ≤ x.size - 2 * x.reach * 2 ^ x.binaryExponent := by
  have bound := x.magnitude_lt
  obtain ⟨z, before⟩ := exists_magnitude (by omega : x.magnitude - 1 < signBit)
  rw [← (size_next (by omega : x.magnitude = z.magnitude + 1)).2]
  exact size_le_size (by omega)

/-! ## The interval -/

theorem reach_pos (x : Binary64) : 0 < x.reach := by
  unfold reach
  split <;> norm_num

/-- A value in the interval of a number rounds to it. -/
theorem Covers.nearest {x : Binary64} {v : ℚ} (covers : x.Covers v) : x.Nearest v := by
  have unit := two_zpow_pos x.binaryExponent
  have low : x.size - x.reach * 2 ^ x.binaryExponent ≤ v := by
    have := (le_div_iff₀ unit).mp covers.low
    rw [size]
    linarith
  have high : v ≤ x.size + 1 / 2 * 2 ^ x.binaryExponent := by
    have := (div_le_iff₀ unit).mp covers.high
    rw [size]
    linarith
  have reach := mul_pos x.reach_pos unit
  constructor
  · intro y _
    rcases Nat.lt_trichotomy y.magnitude x.magnitude with below | same | above
    · have gap := size_le_sub_reach below
      rw [abs_of_nonneg (by linarith : 0 ≤ v - y.size), abs_le]
      exact ⟨by linarith, by linarith⟩
    · rw [size_inj.mpr same]
    · have gap := size_add_unit_le above
      rw [abs_of_nonpos (by linarith : v - y.size ≤ 0), abs_le]
      exact ⟨by linarith, by linarith⟩
  · intro y _ different tie
    -- only a value at an end of the interval is as near to another number
    apply covers.tie
    rw [div_eq_iff unit.ne', div_eq_iff unit.ne']
    rw [sub_mul, add_mul]
    change v = x.size - _ ∨ v = x.size + _
    rcases lt_or_gt_of_ne (mt size_inj.mpr different) with below | above
    · left
      have gap := size_le_sub_reach below
      rw [abs_of_nonneg (by linarith : 0 ≤ v - y.size)] at tie
      rcases abs_cases (v - x.size) with ⟨distance, _⟩ | ⟨distance, _⟩
      · linarith
      · linarith
    · right
      have gap := size_add_unit_le above
      rw [abs_of_nonpos (by linarith : v - y.size ≤ 0)] at tie
      rcases abs_cases (v - x.size) with ⟨distance, _⟩ | ⟨distance, _⟩
      · linarith
      · linarith

/-- A value that rounds to a number is on its side of the middle to any larger one. -/
theorem Nearest.le_middle {x y : Binary64} {v : ℚ} (nearest : x.Nearest v)
    (number : y.isNaN = false) (above : x.size < y.size) :
    v ≤ (x.size + y.size) / 2 ∧ (v = (x.size + y.size) / 2 → x.significand % 2 = 0) := by
  constructor
  · have least := nearest.least y number
    rcases abs_cases (v - x.size) with ⟨left, _⟩ | ⟨left, _⟩ <;>
      rcases abs_cases (v - y.size) with ⟨right, _⟩ | ⟨right, _⟩ <;> linarith
  · intro middle
    refine nearest.even y number above.ne' ?_
    rw [abs_of_nonpos (by linarith : v - y.size ≤ 0), abs_of_nonneg (by linarith : 0 ≤ v - x.size)]
    linarith

/-- A value that rounds to a number is on its side of the middle to any smaller one. -/
theorem Nearest.middle_le {x y : Binary64} {v : ℚ} (nearest : x.Nearest v)
    (number : y.isNaN = false) (below : y.size < x.size) :
    (x.size + y.size) / 2 ≤ v ∧ (v = (x.size + y.size) / 2 → x.significand % 2 = 0) := by
  constructor
  · have least := nearest.least y number
    rcases abs_cases (v - x.size) with ⟨left, _⟩ | ⟨left, _⟩ <;>
      rcases abs_cases (v - y.size) with ⟨right, _⟩ | ⟨right, _⟩ <;> linarith
  · intro middle
    refine nearest.even y number below.ne ?_
    rw [abs_of_nonneg (by linarith : 0 ≤ v - y.size), abs_of_nonpos (by linarith : v - x.size ≤ 0)]
    linarith

/-- A value that rounds to a number lies in its interval.  The ends of the interval are the
middles to the numbers next to it. -/
theorem Nearest.covers {x : Binary64} {v : ℚ} (nearest : x.Nearest v)
    (finite : x.isFinite = true) (nonzero : x.magnitude ≠ 0) : x.Covers v := by
  have unit := two_zpow_pos x.binaryExponent
  have top : x.magnitude < infinityMagnitude := of_decide_eq_true finite
  have room : infinityMagnitude < signBit := by decide
  obtain ⟨up, upMagnitude⟩ := exists_magnitude (by omega : x.magnitude + 1 < signBit)
  obtain ⟨down, downMagnitude⟩ := exists_magnitude (by omega : x.magnitude - 1 < signBit)
  have upNumber : up.isNaN = false := decide_eq_false (by omega)
  have downNumber : down.isNaN = false := decide_eq_false (by omega)
  have upSize := (size_next upMagnitude).1
  have downSize := (size_next (by omega : x.magnitude = down.magnitude + 1)).2
  obtain ⟨high, atHigh⟩ := nearest.le_middle upNumber (size_lt_size (by omega))
  obtain ⟨low, atLow⟩ := nearest.middle_le downNumber (size_lt_size (by omega))
  rw [upSize] at high atHigh
  rw [downSize] at low atLow
  constructor
  · rw [le_div_iff₀ unit, sub_mul, ← size]
    linarith
  · rw [div_le_iff₀ unit, add_mul, ← size]
    linarith
  · rw [div_eq_iff unit.ne', div_eq_iff unit.ne', sub_mul, add_mul, ← size]
    rintro (atEnd | atEnd)
    · exact atLow (by linarith)
    · exact atHigh (by linarith)

/-! ## Uniqueness -/

theorem significand_mod_two (x : Binary64) : x.significand % 2 = x.magnitude % 2 := by
  have parts := x.magnitude_eq
  omega

/-- Two numbers that a value rounds to do not differ in size. -/
theorem Nearest.not_lt {x y : Binary64} {v : ℚ} (atX : x.Nearest v) (atY : y.Nearest v)
    (numberX : x.isNaN = false) (numberY : y.isNaN = false) : ¬x.magnitude < y.magnitude := by
  intro below
  have apart := size_lt_size below
  have tie : |v - x.size| = |v - y.size| := le_antisymm (atX.least y numberY) (atY.least x numberX)
  have evenX := atX.even y numberY apart.ne' tie.symm
  have evenY := atY.even x numberX apart.ne tie
  rw [significand_mod_two] at evenX evenY
  -- both are even, so there is a number between them, and it is nearer than they are
  have top := magnitude_le_of_not_isNaN numberY
  have room := y.magnitude_lt
  obtain ⟨z, between⟩ := exists_magnitude (by omega : x.magnitude + 1 < signBit)
  have number : z.isNaN = false := decide_eq_false (by omega)
  have left : x.size < z.size := size_lt_size (by omega)
  have right : z.size < y.size := size_lt_size (by omega)
  have least := atX.least z number
  have middle : v - x.size = -(v - y.size) := by
    rcases abs_eq_abs.mp tie with same | opposite
    · linarith
    · exact opposite
  have nearer : |v - z.size| < v - x.size :=
    abs_lt.mpr ⟨by linarith, by linarith⟩
  linarith [le_abs_self (v - x.size)]

/-- A value rounds to one number of each sign at most. -/
theorem Nearest.unique {x y : Binary64} {v : ℚ} (atX : x.Nearest v) (atY : y.Nearest v)
    (numberX : x.isNaN = false) (numberY : y.isNaN = false)
    (sign : x.isNegative = y.isNegative) : x = y := by
  have notLess := atX.not_lt atY numberX numberY
  have notMore := atY.not_lt atX numberY numberX
  have size : x.magnitude = y.magnitude := by omega
  rw [← x.ofMagnitude_magnitude, ← y.ofMagnitude_magnitude, sign, size]

end Binary64

end Abacus
