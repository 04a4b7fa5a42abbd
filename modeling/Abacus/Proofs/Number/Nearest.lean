import Mathlib.Algebra.Order.Field.Power
import Mathlib.Data.Rat.Cast.Order
import Mathlib.Tactic.FieldSimp
import Mathlib.Tactic.Linarith
import Mathlib.Tactic.Positivity
import Mathlib.Tactic.Ring
import Abacus.Number.Shortest

/-!
# The shortest decimal reads back

The reals that round to a finite number `x` form an interval around it,
`x.Covers v`.  Two things are computed from its description, each in its own
arithmetic, and here they are shown to agree with it.  Rounding a ratio in the
interval to the nearest number gives `x` (`nearestMagnitude_of_covers`), and
the decimals that the search for the shortest one accepts lie in the interval
(`covers_shortest`).  So the shortest decimal reads back, and so does every
decimal of the same value (`nearest_of_covers`).

The one case that is not plain rounding is the number just above a power of
two.  Below it the numbers lie twice as dense.  A ratio there has a smaller
leading bit than `x`, is rounded in half the unit, and carries into the next
power.
-/

namespace Abacus

/-! ## Powers with integer exponents -/

theorem zpow_eq_div (b : ℚ) (q : ℤ) : b ^ q = b ^ q.toNat / b ^ (-q).toNat := by
  obtain ⟨k, rfl | rfl⟩ := q.eq_nat_or_neg
  · simp
  · simp [zpow_neg]

theorem two_zpow_pos (q : ℤ) : (0 : ℚ) < 2 ^ q := zpow_pos (by norm_num) q

/-- A ratio in units of a power of two, with the power moved to either side. -/
theorem ratio_shift (n d : ℕ) (q : ℤ) :
    ((n * 2 ^ (-q).toNat : ℕ) : ℚ) / ((d * 2 ^ q.toNat : ℕ) : ℚ) = (n : ℚ) / d / 2 ^ q := by
  rw [zpow_eq_div 2 q]
  push_cast
  field_simp

theorem two_zpow_le_ratio_iff (n d : ℕ) (pos : 0 < d) (e : ℤ) :
    d * 2 ^ e.toNat ≤ n * 2 ^ (-e).toNat ↔ (2 : ℚ) ^ e ≤ (n : ℚ) / d := by
  have below : (0 : ℚ) < ((d * 2 ^ e.toNat : ℕ) : ℚ) := by positivity
  rw [← one_le_div (two_zpow_pos e), ← ratio_shift, one_le_div below, Nat.cast_le]

/-! ## The leading bit of a ratio -/

theorem ratioLog2_spec (n d : ℕ) (hn : 0 < n) (hd : 0 < d) :
    (2 : ℚ) ^ ratioLog2 n d ≤ (n : ℚ) / d ∧ (n : ℚ) / d < 2 ^ (ratioLog2 n d + 1) := by
  have two : (2 : ℚ) ≠ 0 := by norm_num
  have hd' : (0 : ℚ) < d := by exact_mod_cast hd
  have nLow : ((2 : ℚ) ^ (n.log2 : ℤ)) ≤ n := by
    rw [zpow_natCast]
    exact_mod_cast Nat.log2_self_le hn.ne'
  have nHigh : (n : ℚ) < 2 ^ ((n.log2 : ℤ) + 1) := by
    rw [← Nat.cast_succ, zpow_natCast]
    exact_mod_cast Nat.lt_log2_self
  have dLow : ((2 : ℚ) ^ (d.log2 : ℤ)) ≤ d := by
    rw [zpow_natCast]
    exact_mod_cast Nat.log2_self_le hd.ne'
  have dHigh : (d : ℚ) < 2 ^ ((d.log2 : ℤ) + 1) := by
    rw [← Nat.cast_succ, zpow_natCast]
    exact_mod_cast Nat.lt_log2_self
  have low : (2 : ℚ) ^ ((n.log2 : ℤ) - d.log2 - 1) ≤ (n : ℚ) / d := by
    rw [le_div_iff₀ hd']
    calc (2 : ℚ) ^ ((n.log2 : ℤ) - d.log2 - 1) * d
        ≤ 2 ^ ((n.log2 : ℤ) - d.log2 - 1) * 2 ^ ((d.log2 : ℤ) + 1) :=
          mul_le_mul_of_nonneg_left dHigh.le (two_zpow_pos _).le
      _ = 2 ^ (n.log2 : ℤ) := by
          rw [← zpow_add₀ two]
          congr 1
          ring
      _ ≤ n := nLow
  have high : (n : ℚ) / d < 2 ^ ((n.log2 : ℤ) - d.log2 + 1) := by
    rw [div_lt_iff₀ hd']
    calc (n : ℚ) < 2 ^ ((n.log2 : ℤ) + 1) := nHigh
      _ = 2 ^ ((n.log2 : ℤ) - d.log2 + 1) * 2 ^ (d.log2 : ℤ) := by
          rw [← zpow_add₀ two]
          congr 1
          ring
      _ ≤ 2 ^ ((n.log2 : ℤ) - d.log2 + 1) * d :=
          mul_le_mul_of_nonneg_left dLow (two_zpow_pos _).le
  unfold ratioLog2
  simp only [Nat.pow_eq]
  split
  next fits => exact ⟨(two_zpow_le_ratio_iff n d hd _).mp fits, high⟩
  next excess =>
    rw [two_zpow_le_ratio_iff n d hd] at excess
    refine ⟨low, ?_⟩
    rw [sub_add_cancel]
    exact not_le.mp excess

theorem ratioLog2_eq (n d : ℕ) (hn : 0 < n) (hd : 0 < d) (e : ℤ)
    (low : (2 : ℚ) ^ e ≤ (n : ℚ) / d) (high : (n : ℚ) / d < 2 ^ (e + 1)) :
    ratioLog2 n d = e := by
  obtain ⟨low', high'⟩ := ratioLog2_spec n d hn hd
  have two : (1 : ℚ) < 2 := by norm_num
  have h1 := (zpow_lt_zpow_iff_right₀ two).mp (lt_of_le_of_lt low high')
  have h2 := (zpow_lt_zpow_iff_right₀ two).mp (lt_of_le_of_lt low' high)
  omega

/-! ## Rounding a quotient -/

/-- A quotient rounds to a natural number that is at most a half away, and is
even if it is exactly a half. -/
theorem divNearestEven_eq (a b m : ℕ) (pos : 0 < b) (low : (m : ℚ) - 1 / 2 ≤ (a : ℚ) / b)
    (high : (a : ℚ) / b ≤ m + 1 / 2)
    (tie : (a : ℚ) / b = m - 1 / 2 ∨ (a : ℚ) / b = m + 1 / 2 → m % 2 = 0) :
    divNearestEven a b = m := by
  have hb : (0 : ℚ) < b := by exact_mod_cast pos
  have low' : 2 * (m * b) ≤ 2 * a + b := by
    rw [le_div_iff₀ hb] at low
    have : (2 * (m * b) : ℚ) ≤ 2 * a + b := by linarith
    exact_mod_cast this
  have high' : 2 * a ≤ 2 * (m * b) + b := by
    rw [div_le_iff₀ hb] at high
    have : (2 * a : ℚ) ≤ 2 * (m * b) + b := by linarith
    exact_mod_cast this
  have tie' : 2 * (m * b) = 2 * a + b ∨ 2 * a = 2 * (m * b) + b → m % 2 = 0 := by
    intro h
    apply tie
    rw [div_eq_iff hb.ne', div_eq_iff hb.ne']
    rcases h with h | h
    · left
      have : (2 * (m * b) : ℚ) = 2 * a + b := by exact_mod_cast h
      linarith
    · right
      have : (2 * a : ℚ) = 2 * (m * b) + b := by exact_mod_cast h
      linarith
  have whole : b * (a / b) + a % b = a := Nat.div_add_mod a b
  have small : a % b < b := Nat.mod_lt a pos
  -- the quotient is `m` or one below it
  have atMost : a / b ≤ m := by
    by_contra excess
    have above : b * (m + 1) ≤ b * (a / b) := Nat.mul_le_mul_left b (by omega)
    rw [Nat.mul_add, Nat.mul_one, Nat.mul_comm b m] at above
    omega
  have atLeast : m ≤ a / b + 1 := by
    by_contra under
    have below : b * (a / b + 2) ≤ b * m := Nat.mul_le_mul_left b (by omega)
    rw [Nat.mul_add, Nat.mul_comm b m] at below
    omega
  have cases : m = a / b ∨ m = a / b + 1 := by omega
  unfold divNearestEven
  rcases cases with same | next
  · have mb : m * b = b * (a / b) := by rw [same, Nat.mul_comm]
    split
    · omega
    · split
      · omega
      · have := tie' (by omega)
        omega
  · have mb : m * b = b * (a / b) + b := by rw [next, Nat.mul_comm, Nat.mul_add, Nat.mul_one]
    split
    · omega
    · split
      · omega
      · have := tie' (by omega)
        omega

namespace Binary64

theorem exponentBit_eq : exponentBit = 2 ^ 52 := rfl

theorem nearestMagnitude_eq (n d : ℕ) (hn : 0 < n) (hd : 0 < d) (q : ℤ) (m : ℕ)
    (unit : unitExponent (ratioLog2 n d) = q) (low : (m : ℚ) - 1 / 2 ≤ (n : ℚ) / d / 2 ^ q)
    (high : (n : ℚ) / d / 2 ^ q ≤ m + 1 / 2)
    (tie : (n : ℚ) / d / 2 ^ q = m - 1 / 2 ∨ (n : ℚ) / d / 2 ^ q = m + 1 / 2 → m % 2 = 0) :
    nearestMagnitude n d = min ((q + 1074).toNat * 2 ^ 52 + m) infinityMagnitude := by
  rw [← ratio_shift] at low high tie
  have rounded := divNearestEven_eq _ _ m (by positivity) low high tie
  rw [nearestMagnitude, if_neg hn.ne']
  simp only [unit, Nat.pow_eq, rounded, exponentBit_eq]

/-! ## The parts of a number -/

theorem magnitude_eq (x : Binary64) :
    x.magnitude = (x.exponentField - 1) * 2 ^ 52 + x.significand := by
  unfold exponentField significand exponentBit
  split <;> omega

theorem significand_pos (x : Binary64) (nonzero : x.magnitude ≠ 0) : 0 < x.significand := by
  unfold significand exponentBit
  split <;> omega

theorem significand_lt (x : Binary64) : x.significand < 2 ^ 53 := by
  unfold significand exponentBit
  split <;> omega

theorem le_significand (x : Binary64) (normal : 1 < x.exponentField) : 2 ^ 52 ≤ x.significand := by
  unfold exponentField exponentBit at normal
  unfold significand exponentBit
  split <;> omega

theorem exponentField_pos (x : Binary64) : 1 ≤ x.exponentField := Nat.le_max_right _ _

theorem magnitude_lt (x : Binary64) : x.magnitude < signBit := Nat.mod_lt _ (by decide)

theorem ofMagnitude_magnitude (x : Binary64) : ofMagnitude x.isNegative x.magnitude = x := by
  have bound := x.bits.toNat_lt
  have whole : (if x.isNegative then signBit + x.magnitude else x.magnitude) = x.bits.toNat := by
    unfold isNegative magnitude signBit
    split
    next sign =>
      have := of_decide_eq_true sign
      omega
    next sign =>
      have := of_decide_eq_false (Bool.not_eq_true _ ▸ sign)
      omega
  unfold ofMagnitude
  rw [whole]
  obtain ⟨bits⟩ := x
  simp

theorem ofMagnitude_false {m : ℕ} (bound : m < signBit) :
    (ofMagnitude false m).isNegative = false ∧ (ofMagnitude false m).magnitude = m := by
  have bits : (ofMagnitude false m).bits.toNat = m := by
    simp only [ofMagnitude, Bool.false_eq_true, if_false, Nat.toUInt64, UInt64.toNat_ofNat']
    exact Nat.mod_eq_of_lt (Nat.lt_trans bound (by decide))
  constructor
  · unfold isNegative
    rw [bits]
    exact decide_eq_false (Nat.not_le_of_lt bound)
  · unfold magnitude
    rw [bits]
    exact Nat.mod_eq_of_lt bound

/-! ## The rounding interval -/

/-- How far the rounding interval reaches below a number, in units of its last bit. -/
def reach (x : Binary64) : ℚ :=
  if x.magnitude % 2 ^ 52 = 0 ∧ 1 < x.exponentField then 1 / 4 else 1 / 2

theorem reach_le (x : Binary64) : x.reach ≤ 1 / 2 := by
  unfold reach
  split <;> norm_num

/-- The value lies in the interval of reals that round to the absolute value of
the number.  The ends do so when the significand is even. -/
structure Covers (x : Binary64) (v : ℚ) : Prop where
  low : x.significand - x.reach ≤ v / 2 ^ x.binaryExponent
  high : v / 2 ^ x.binaryExponent ≤ x.significand + 1 / 2
  tie : v / 2 ^ x.binaryExponent = x.significand - x.reach ∨
    v / 2 ^ x.binaryExponent = x.significand + 1 / 2 → x.significand % 2 = 0

theorem Covers.pos {x : Binary64} {v : ℚ} (covers : x.Covers v) (nonzero : x.magnitude ≠ 0) :
    0 < v := by
  have one : (1 : ℚ) ≤ x.significand := by exact_mod_cast x.significand_pos nonzero
  have half := x.reach_le
  have low := covers.low
  have unit := two_zpow_pos x.binaryExponent
  have : 0 < v / 2 ^ x.binaryExponent := by linarith
  exact (div_pos_iff_of_pos_right unit).mp this

theorem significand_eq_zero {x : Binary64} (zero : x.magnitude = 0) : x.significand = 0 := by
  have parts := x.magnitude_eq
  omega

/-- Zero lies in the interval of both zeros. -/
theorem covers_zero {x : Binary64} (zero : x.magnitude = 0) : x.Covers 0 := by
  have subnormal : ¬1 < x.exponentField := by
    have := x.le_significand
    have := significand_eq_zero zero
    omega
  have half : x.reach = 1 / 2 := by rw [reach, if_neg fun boundary => subnormal boundary.2]
  constructor <;> rw [zero_div, significand_eq_zero zero] <;> norm_num [half]

/-- Rounding in the unit of the number itself. -/
theorem nearestMagnitude_of_unit {x : Binary64} (finite : x.isFinite = true) {n d : ℕ}
    (hn : 0 < n) (hd : 0 < d) (covers : x.Covers ((n : ℚ) / d))
    (unit : unitExponent (ratioLog2 n d) = x.binaryExponent) :
    nearestMagnitude n d = x.magnitude := by
  have half := x.reach_le
  have low := covers.low
  have rounded := nearestMagnitude_eq n d hn hd x.binaryExponent x.significand unit
    (by linarith) covers.high (by
      rintro (below | above)
      · exact covers.tie (.inl (by linarith))
      · exact covers.tie (.inr above))
  have field : (x.binaryExponent + 1074).toNat = x.exponentField - 1 := by
    unfold binaryExponent
    omega
  have bound := of_decide_eq_true finite
  rw [rounded, field, ← magnitude_eq, Nat.min_eq_left bound.le]

/-- Rounding just below a power of two, in half the unit and with a carry. -/
theorem nearestMagnitude_of_carry {x : Binary64} (finite : x.isFinite = true) {n d : ℕ}
    (hn : 0 < n) (hd : 0 < d) (covers : x.Covers ((n : ℚ) / d)) (normal : 1 < x.exponentField)
    (small : (n : ℚ) / d / 2 ^ x.binaryExponent < 2 ^ (52 : ℤ))
    (below : (n : ℚ) / d < 2 ^ (x.binaryExponent + 52)) :
    nearestMagnitude n d = x.magnitude := by
  have two : (2 : ℚ) ≠ 0 := by norm_num
  have unit := two_zpow_pos x.binaryExponent
  have low := covers.low
  have half := x.reach_le
  -- the significand is at least `2 ^ 52` and the ratio is below that, so it is a power of two
  have significand : x.significand = 2 ^ 52 := by
    have least := x.le_significand normal
    have most : (x.significand : ℚ) < 2 ^ 52 + 1 := by
      rw [show (2 : ℚ) ^ (52 : ℤ) = 2 ^ 52 from zpow_natCast 2 52] at small
      linarith
    have : x.significand < 2 ^ 52 + 1 := by exact_mod_cast most
    omega
  have boundary : x.reach = 1 / 4 := by
    have : x.magnitude % 2 ^ 52 = 0 := by
      have parts := x.magnitude_eq
      omega
    rw [reach, if_pos ⟨this, normal⟩]
  rw [boundary, significand] at low
  rw [show (2 : ℚ) ^ (52 : ℤ) = 2 ^ 52 from zpow_natCast 2 52] at small
  push_cast at low
  have halved : (n : ℚ) / d / 2 ^ (x.binaryExponent - 1) =
      2 * ((n : ℚ) / d / 2 ^ x.binaryExponent) := by
    rw [zpow_sub₀ two, zpow_one]
    field_simp
  have leading : ratioLog2 n d = x.binaryExponent + 51 := by
    refine ratioLog2_eq n d hn hd _ ?_ ?_
    · have atLeast : (2 : ℚ) ^ (51 : ℤ) ≤ (n : ℚ) / d / 2 ^ x.binaryExponent := by
        rw [show (2 : ℚ) ^ (51 : ℤ) = 2 ^ 51 from zpow_natCast 2 51]
        linarith
      rw [add_comm, zpow_add₀ two, ← le_div_iff₀ unit]
      exact atLeast
    · rw [add_assoc]
      exact below
  have exponent : unitExponent (ratioLog2 n d) = x.binaryExponent - 1 := by
    rw [leading]
    unfold unitExponent binaryExponent
    omega
  have rounded := nearestMagnitude_eq n d hn hd _ (2 ^ 53) exponent
    (by rw [halved]; push_cast; linarith) (by rw [halved]; push_cast; linarith) (fun _ => rfl)
  have bound := of_decide_eq_true finite
  have field : (x.binaryExponent - 1 + 1074).toNat = x.exponentField - 2 := by
    unfold binaryExponent
    omega
  have carried : (x.exponentField - 2) * 2 ^ 52 + 2 ^ 53 = x.magnitude := by
    rw [x.magnitude_eq, significand]
    omega
  rw [rounded, field, carried, Nat.min_eq_left bound.le]

/-- A ratio in the interval of a number rounds to it. -/
theorem nearestMagnitude_of_covers {x : Binary64} (finite : x.isFinite = true) {n d : ℕ}
    (hd : 0 < d) (covers : x.Covers ((n : ℚ) / d)) : nearestMagnitude n d = x.magnitude := by
  have two : (2 : ℚ) ≠ 0 := by norm_num
  obtain rfl | hn := n.eq_zero_or_pos
  · by_contra nonzero
    have pos := covers.pos (Ne.symm nonzero)
    simp at pos
  have unit := two_zpow_pos x.binaryExponent
  have value : (n : ℚ) / d = (n : ℚ) / d / 2 ^ x.binaryExponent * 2 ^ x.binaryExponent :=
    (div_mul_cancel₀ _ unit.ne').symm
  have field := x.exponentField_pos
  have below53 : (n : ℚ) / d < 2 ^ (x.binaryExponent + 53) := by
    have limit : (x.significand : ℚ) + 1 ≤ 2 ^ (53 : ℤ) := by exact_mod_cast x.significand_lt
    rw [value, add_comm x.binaryExponent, zpow_add₀ two]
    have high := covers.high
    exact mul_lt_mul_of_pos_right (by linarith) unit
  by_cases normal : (2 : ℚ) ^ (52 : ℤ) ≤ (n : ℚ) / d / 2 ^ x.binaryExponent
  · have leading : ratioLog2 n d = x.binaryExponent + 52 := by
      refine ratioLog2_eq n d hn hd _ ?_ ?_
      · rw [value, add_comm x.binaryExponent, zpow_add₀ two]
        exact mul_le_mul_of_nonneg_right normal unit.le
      · rw [add_assoc]
        exact below53
    refine nearestMagnitude_of_unit finite hn hd covers ?_
    rw [leading]
    unfold unitExponent binaryExponent
    omega
  · have small := not_le.mp normal
    have below52 : (n : ℚ) / d < 2 ^ (x.binaryExponent + 52) := by
      rw [value, add_comm x.binaryExponent, zpow_add₀ two]
      exact mul_lt_mul_of_pos_right small unit
    by_cases subnormal : x.exponentField = 1
    · refine nearestMagnitude_of_unit finite hn hd covers ?_
      have leading := (zpow_lt_zpow_iff_right₀ (by norm_num : (1 : ℚ) < 2)).mp
        (lt_of_le_of_lt (ratioLog2_spec n d hn hd).1 below52)
      unfold unitExponent
      unfold binaryExponent at leading ⊢
      omega
    · exact nearestMagnitude_of_carry finite hn hd covers (by omega) small below52

end Binary64

/-! ## Decimals -/

/-- The number that a decimal stands for. -/
def Decimal.value (d : Decimal) : ℚ := d.coefficient * 10 ^ d.exponent

namespace Binary64

/-- A unit of the exact coefficient is the last bit, in units of the decimal exponent. -/
theorem unit_mul_ten_zpow (x : Binary64) :
    (x.unit : ℚ) * 10 ^ x.decimalExponent = 2 ^ x.binaryExponent := by
  unfold unit decimalExponent
  simp only [Nat.pow_eq]
  obtain ⟨k, positive | negative⟩ := x.binaryExponent.eq_nat_or_neg
  · rw [positive, min_eq_right (by omega)]
    simp
  · rw [negative, min_eq_left (by omega)]
    have ten : (10 : ℚ) = 2 * 5 := by norm_num
    simp only [neg_neg, Int.toNat_natCast, Int.toNat_neg_natCast, pow_zero, one_mul, ten, zpow_neg,
      zpow_natCast, Nat.cast_pow, Nat.cast_ofNat]
    field_simp
    rw [mul_pow, mul_comm]

theorem unit_pos (x : Binary64) : 0 < x.unit := by
  unfold unit
  simp only [Nat.pow_eq]
  positivity

/-- The lower end of the interval in quarter units, as a rational number. -/
theorem lowerQuarters_eq (x : Binary64) (nonzero : x.magnitude ≠ 0) :
    (x.lowerQuarters : ℚ) = 4 * (x.significand - x.reach) * x.unit := by
  have one := x.significand_pos nonzero
  unfold lowerQuarters reach
  rw [exponentBit_eq]
  split
  · rw [Nat.cast_mul, Nat.cast_sub (by omega)]
    push_cast
    ring
  · rw [Nat.cast_mul, Nat.cast_sub (by omega)]
    push_cast
    ring

/-- The search accepts what lies in the interval. -/
theorem roundsTo_iff_covers {x : Binary64} (nonzero : x.magnitude ≠ 0) {c : ℕ} :
    x.roundsTo c = true ↔ x.Covers (c * 10 ^ x.decimalExponent) := by
  have unit : (0 : ℚ) < x.unit := by exact_mod_cast x.unit_pos
  have ten : (0 : ℚ) < 10 ^ x.decimalExponent := zpow_pos (by norm_num) _
  have inUnits : (c : ℚ) * 10 ^ x.decimalExponent / 2 ^ x.binaryExponent = c / x.unit := by
    rw [← unit_mul_ten_zpow, mul_div_mul_right _ _ ten.ne']
  have lower := x.lowerQuarters_eq nonzero
  have upper : (x.upperQuarters : ℚ) = 4 * (x.significand + 1 / 2) * x.unit := by
    unfold upperQuarters
    push_cast
    ring
  have low : x.significand - x.reach ≤ (c : ℚ) / x.unit ↔ x.lowerQuarters ≤ 4 * c := by
    rw [le_div_iff₀ unit, ← Nat.cast_le (α := ℚ), lower]
    push_cast
    constructor <;> intro h <;> linarith
  have high : (c : ℚ) / x.unit ≤ x.significand + 1 / 2 ↔ 4 * c ≤ x.upperQuarters := by
    rw [div_le_iff₀ unit, ← Nat.cast_le (α := ℚ), upper]
    push_cast
    constructor <;> intro h <;> linarith
  have atLow : (c : ℚ) / x.unit = x.significand - x.reach ↔ 4 * c = x.lowerQuarters := by
    rw [div_eq_iff unit.ne', ← Nat.cast_inj (R := ℚ), lower]
    push_cast
    constructor <;> intro h <;> linarith
  have atHigh : (c : ℚ) / x.unit = x.significand + 1 / 2 ↔ 4 * c = x.upperQuarters := by
    rw [div_eq_iff unit.ne', ← Nat.cast_inj (R := ℚ), upper]
    push_cast
    constructor <;> intro h <;> linarith
  have covers : x.Covers (c * 10 ^ x.decimalExponent) ↔ x.lowerQuarters ≤ 4 * c ∧
      4 * c ≤ x.upperQuarters ∧
      (4 * c = x.lowerQuarters ∨ 4 * c = x.upperQuarters → x.significand % 2 = 0) := by
    rw [← low, ← high, ← atLow, ← atHigh, ← inUnits]
    exact ⟨fun h => ⟨h.low, h.high, h.tie⟩, fun ⟨h, h', tie⟩ => ⟨h, h', tie⟩⟩
  rw [covers, roundsTo]
  split
  · rw [decide_eq_true_iff]
    omega
  · rw [decide_eq_true_iff]
    omega

theorem roundsTo_exactCoefficient (x : Binary64) (nonzero : x.magnitude ≠ 0) :
    x.roundsTo x.exactCoefficient = true := by
  have unit := x.unit_pos
  have one := x.significand_pos nonzero
  have exact' : 4 * x.exactCoefficient = 4 * x.significand * x.unit := by
    rw [exactCoefficient, Nat.mul_assoc]
  have low : x.lowerQuarters < 4 * x.exactCoefficient := by
    rw [exact', lowerQuarters]
    split <;> exact Nat.mul_lt_mul_of_pos_right (by omega) unit
  have high : 4 * x.exactCoefficient < x.upperQuarters := by
    rw [exact', upperQuarters]
    exact Nat.mul_lt_mul_of_pos_right (by omega) unit
  unfold roundsTo
  split
  · exact decide_eq_true ⟨low.le, high.le⟩
  · exact decide_eq_true ⟨low, high⟩

/-- The number of multiples of `10 ^ k` units below a number. -/
def below (x : Binary64) (k : ℕ) : ℕ := x.exactCoefficient / 10 ^ k

/-- What is chosen on the grid of multiples of `10 ^ k` units. -/
structure IsNeighbour (tie : Tie) (x : Binary64) (k c : ℕ) : Prop where
  /-- It rounds to the number. -/
  accepted : x.roundsTo (c * 10 ^ k) = true
  /-- It is next to the number, on the nearer side if both sides round to it. -/
  side : c = x.below k ∧
      (x.roundsTo ((x.below k + 1) * 10 ^ k) = true → 2 * (x.exactCoefficient % 10 ^ k) ≤ 10 ^ k) ∨
    c = x.below k + 1 ∧
      (x.roundsTo (x.below k * 10 ^ k) = true → 10 ^ k ≤ 2 * (x.exactCoefficient % 10 ^ k))
  /-- If the sides are equally near, the tie decides. -/
  tied : x.roundsTo (x.below k * 10 ^ k) = true →
    x.roundsTo ((x.below k + 1) * 10 ^ k) = true →
    2 * (x.exactCoefficient % 10 ^ k) = 10 ^ k → c = tie.choose (x.below k)

theorem choose_eq (tie : Tie) (n : ℕ) : tie.choose n = n ∨ tie.choose n = n + 1 := by
  cases tie with
  | up => exact .inr rfl
  | even =>
    unfold Tie.choose
    dsimp only
    omega

theorem isNeighbour_of_neighbour {tie : Tie} {x : Binary64} {k c : ℕ}
    (found : x.neighbour tie k = some c) : IsNeighbour tie x k c := by
  have cut : x.exactCoefficient / 10 ^ k = x.below k := rfl
  unfold neighbour at found
  simp only [Nat.pow_eq, cut] at found
  split at found
  next lower upper =>
    cases found
    split
    next nearer =>
      exact ⟨lower, .inl ⟨rfl, fun _ => nearer.le⟩, fun _ _ tied => absurd tied nearer.ne⟩
    next notLower =>
      split
      next nearer =>
        exact ⟨upper, .inr ⟨rfl, fun _ => nearer.le⟩, fun _ _ tied => absurd tied nearer.ne'⟩
      next notUpper =>
        rcases choose_eq tie (x.below k) with same | same
        · rw [same]
          exact ⟨lower, .inl ⟨rfl, fun _ => not_lt.mp notUpper⟩, fun _ _ _ => same.symm⟩
        · rw [same]
          exact ⟨upper, .inr ⟨rfl, fun _ => not_lt.mp notLower⟩, fun _ _ _ => same.symm⟩
  next lower upper =>
    cases found
    have missing : x.roundsTo ((x.below k + 1) * 10 ^ k) ≠ true := by
      rw [upper]
      exact Bool.false_ne_true
    exact ⟨lower, .inl ⟨rfl, fun other => absurd other missing⟩,
      fun _ other => absurd other missing⟩
  next lower upper =>
    cases found
    have missing : x.roundsTo (x.below k * 10 ^ k) ≠ true := by
      rw [lower]
      exact Bool.false_ne_true
    exact ⟨upper, .inr ⟨rfl, fun other => absurd other missing⟩, fun other => absurd other missing⟩
  next => cases found

/-- There is a choice if one of the sides rounds to the number. -/
theorem exists_neighbour (tie : Tie) {x : Binary64} {k c : ℕ}
    (side : c = x.below k ∨ c = x.below k + 1) (accepted : x.roundsTo (c * 10 ^ k) = true) :
    ∃ c', x.neighbour tie k = some c' := by
  have cut : x.exactCoefficient / 10 ^ k = x.below k := rfl
  unfold neighbour
  simp only [Nat.pow_eq, cut]
  split
  · exact ⟨_, rfl⟩
  · exact ⟨_, rfl⟩
  · exact ⟨_, rfl⟩
  next lower upper =>
    rcases side with rfl | rfl
    · exact absurd (lower.symm.trans accepted) Bool.false_ne_true
    · exact absurd (upper.symm.trans accepted) Bool.false_ne_true

theorem neighbour_zero (tie : Tie) {x : Binary64} (nonzero : x.magnitude ≠ 0) :
    x.neighbour tie 0 = some x.exactCoefficient := by
  have own := x.roundsTo_exactCoefficient nonzero
  simp only [neighbour, Nat.pow_eq, pow_zero, Nat.div_one, Nat.mul_one, Nat.mod_one, own]
  cases x.roundsTo (x.exactCoefficient + 1) <;> rfl

/-- The search ends on the coarsest grid that has a neighbour. -/
theorem searchFrom_spec (tie : Tie) {x : Binary64} (nonzero : x.magnitude ≠ 0) (most : ℕ) :
    ∃ k ≤ most, ∃ c, x.searchFrom tie most = ⟨c, x.decimalExponent + k⟩ ∧
      x.neighbour tie k = some c ∧ ∀ j ≤ most, k < j → x.neighbour tie j = none := by
  induction most with
  | zero =>
    refine ⟨0, Nat.le_refl 0, x.exactCoefficient, ?_, neighbour_zero tie nonzero, ?_⟩
    · rw [searchFrom, Nat.cast_zero, Int.add_zero]
    · intro j none above
      omega
  | succ most ih =>
    rw [searchFrom]
    split
    next c found =>
      refine ⟨most + 1, Nat.le_refl _, c, rfl, found, ?_⟩
      intro j le above
      omega
    next missing =>
      obtain ⟨k, le, c, result, found, coarsest⟩ := ih
      refine ⟨k, Nat.le_succ_of_le le, c, result, found, ?_⟩
      intro j le above
      rcases Nat.le_succ_iff.mp le with inside | rfl
      · exact coarsest j inside above
      · exact missing

/-- The value of a multiple of `10 ^ k` units. -/
def onGrid (x : Binary64) (k c : ℕ) : ℚ := ((c * 10 ^ k : ℕ) : ℚ) * 10 ^ x.decimalExponent

theorem value_eq_onGrid (x : Binary64) (k c : ℕ) :
    Decimal.value ⟨c, x.decimalExponent + k⟩ = x.onGrid k c := by
  rw [Decimal.value, onGrid, zpow_add₀ (by norm_num), zpow_natCast]
  push_cast
  ring

/-- The shortest decimal of a number lies in its interval. -/
theorem covers_shortest (tie : Tie) {x : Binary64} (nonzero : x.magnitude ≠ 0) :
    x.Covers (x.shortest tie).value := by
  obtain ⟨k, -, c, result, found, -⟩ := searchFrom_spec tie nonzero
    ((Nat.toDigits 10 x.exactCoefficient).length - 1)
  rw [shortest, result, value_eq_onGrid]
  exact (roundsTo_iff_covers nonzero).mp (isNeighbour_of_neighbour found).accepted

/-- A decimal in the interval of a number reads as it, with the sign that is given. -/
theorem nearest_of_covers {x : Binary64} (finite : x.isFinite = true) (d : Decimal)
    (covers : x.Covers d.value) (negative : Bool) :
    d.nearest negative = .ofMagnitude negative x.magnitude := by
  have ratio : ((d.coefficient * 10 ^ d.exponent.toNat : ℕ) : ℚ) /
      ((10 ^ (-d.exponent).toNat : ℕ) : ℚ) = d.value := by
    rw [Decimal.value, zpow_eq_div 10 d.exponent]
    push_cast
    ring
  rw [← ratio] at covers
  have magnitude := nearestMagnitude_of_covers finite (by positivity) covers
  rw [Decimal.nearest, ofRatio, Nat.pow_eq, Nat.pow_eq, magnitude]

theorem coefficient_shortest_pos (tie : Tie) {x : Binary64} (nonzero : x.magnitude ≠ 0) :
    0 < (x.shortest tie).coefficient := by
  have pos := (covers_shortest tie nonzero).pos nonzero
  rw [Decimal.value] at pos
  have coefficient := (mul_pos_iff_of_pos_right (zpow_pos (by norm_num) _)).mp pos
  exact_mod_cast coefficient

end Binary64

end Abacus
