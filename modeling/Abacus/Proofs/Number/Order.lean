import Mathlib.Order.WithBot
import Abacus.Proofs.Number.TiesToEven

/-!
# The order of numbers

Numbers are ordered in two ways, and both are read off the pattern.

The IEEE order goes by the `position` of a number, which is its magnitude with a sign.
That it is the order of what the patterns stand for is shown here: a finite pattern
stands for a rational, an infinite one for an end of the line (`Binary64.extended`),
and positions are in the order of these (`extended_lt_extended_iff`).  Two patterns at
one place are the same, or the two zeros (`position_eq_iff`).

The *total order* is an order of all patterns.  The NaNs are at both ends of it, and the
negative zero is below the positive one.  It is computed on signed words: if the sign is
set, all other bits are flipped (`Binary64.totalKey`).  That leaves the magnitude as it
is, or takes it to the other side of zero and one further (`toInt_totalKey`), so no two
patterns have one key (`totalKey_inj`).
-/

namespace Abacus

namespace Binary64

variable {x y : Binary64}

/-! ## Places on the line -/

/-- The two zeros, in either order. -/
def OppositeZeros (x y : Binary64) : Prop :=
  x.magnitude = 0 ∧ y.magnitude = 0 ∧ x.isNegative ≠ y.isNegative

theorem eq_of_fields (sign : x.isNegative = y.isNegative) (size : x.magnitude = y.magnitude) :
    x = y := by
  rw [← x.ofMagnitude_magnitude, ← y.ofMagnitude_magnitude, sign, size]

/-- Two numbers at one place are one number, or the two zeros. -/
theorem position_eq_iff : x.position = y.position ↔ x = y ∨ x.OppositeZeros y := by
  constructor
  · intro place
    by_cases sign : x.isNegative = y.isNegative
    · left
      apply eq_of_fields sign
      unfold position at place
      rw [sign] at place
      split at place <;> omega
    · right
      have zeros : x.magnitude = 0 ∧ y.magnitude = 0 := by
        unfold position at place
        cases left : x.isNegative <;> cases right : y.isNegative <;> grind
      exact ⟨zeros.1, zeros.2, sign⟩
  · rintro (rfl | ⟨left, right, -⟩)
    · rfl
    · unfold position
      rw [left, right]
      simp

theorem OppositeZeros.not_isNaN (zeros : x.OppositeZeros y) :
    x.isNaN = false ∧ y.isNaN = false := by
  obtain ⟨left, right, -⟩ := zeros
  rw [isNaN, isNaN, left, right]
  exact ⟨rfl, rfl⟩

theorem OppositeZeros.ne (zeros : x.OppositeZeros y) : x ≠ y := by
  rintro rfl
  exact zeros.2.2 rfl

/-! ## What numbers stand for -/

/-- The size of a number with its sign. -/
def signedSize (x : Binary64) : ℚ := if x.isNegative then -x.size else x.size

/-- What a pattern stands for that is no NaN: a rational, or an end of the line. -/
def extended (x : Binary64) : WithBot (WithTop ℚ) :=
  if x.isFinite then ((x.signedSize : WithTop ℚ) : WithBot (WithTop ℚ))
  else if x.isNegative then ⊥ else ⊤

theorem size_lt_size_iff : x.size < y.size ↔ x.magnitude < y.magnitude := by
  refine ⟨fun less => ?_, size_lt_size⟩
  rcases Nat.lt_trichotomy x.magnitude y.magnitude with below | same | above
  · exact below
  · exact absurd (size_inj.mpr same) less.ne
  · exact absurd less (size_lt_size above).not_gt

theorem size_nonneg (x : Binary64) : 0 ≤ x.size :=
  mul_nonneg (Nat.cast_nonneg _) (two_zpow_pos _).le

theorem size_pos_iff : 0 < x.size ↔ 0 < x.magnitude := by
  have zero : size zero = 0 := by
    rw [size, significand_eq_zero rfl, Nat.cast_zero, zero_mul]
  rw [← zero, size_lt_size_iff]
  rfl

/-- Positions are in the order of the sizes with their signs. -/
theorem signedSize_lt_signedSize_iff : x.signedSize < y.signedSize ↔ x.position < y.position := by
  have left := x.size_nonneg
  have right := y.size_nonneg
  unfold signedSize position
  cases x.isNegative with
  | false =>
    cases y.isNegative with
    | false => simp [size_lt_size_iff]
    | true =>
      simp only [Bool.false_eq_true, ↓reduceIte]
      exact ⟨fun less => by linarith, fun less => by omega⟩
  | true =>
    cases y.isNegative with
    | false =>
      simp only [Bool.false_eq_true, ↓reduceIte]
      -- only two zeros are not in order here
      have apart : 0 < x.size ∨ 0 < y.size ↔ 0 < x.magnitude ∨ 0 < y.magnitude :=
        or_congr size_pos_iff size_pos_iff
      constructor
      · intro less
        have nonzero : 0 < x.size ∨ 0 < y.size := by
          by_contra! zeros
          linarith [zeros.1, zeros.2]
        have places := apart.mp nonzero
        omega
      · intro less
        rcases apart.mpr (by omega) with positive | positive <;> linarith
    | true => simp [size_lt_size_iff]

/-- Every number is at an end of the line or strictly between the ends. -/
theorem extended_cases (number : x.isNaN = false) :
    (x.extended = (x.signedSize : WithTop ℚ) ∧
      -(infinityMagnitude : ℤ) < x.position ∧ x.position < infinityMagnitude) ∨
    (x.extended = ⊥ ∧ x.position = -(infinityMagnitude : ℤ)) ∨
    (x.extended = ⊤ ∧ x.position = infinityMagnitude) := by
  unfold extended
  by_cases finite : x.isFinite = true
  · left
    have below : x.magnitude < infinityMagnitude := of_decide_eq_true finite
    refine ⟨if_pos finite, ?_⟩
    unfold position
    split <;> omega
  · right
    rw [if_neg finite, position, magnitude_of_infinite number finite]
    cases x.isNegative with
    | true => exact .inl ⟨rfl, rfl⟩
    | false => exact .inr ⟨rfl, rfl⟩

/-- Positions are in the order of what the numbers stand for. -/
theorem extended_lt_extended_iff (numberX : x.isNaN = false) (numberY : y.isNaN = false) :
    x.extended < y.extended ↔ x.position < y.position := by
  have ends : -(infinityMagnitude : ℤ) < infinityMagnitude := by decide
  rcases extended_cases numberX with ⟨valueX, lowX, highX⟩ | ⟨valueX, placeX⟩ | ⟨valueX, placeX⟩
  · rcases extended_cases numberY with ⟨valueY, -⟩ | ⟨valueY, placeY⟩ | ⟨valueY, placeY⟩
    · rw [valueX, valueY, WithBot.coe_lt_coe, WithTop.coe_lt_coe, signedSize_lt_signedSize_iff]
    · rw [valueY, placeY]
      exact iff_of_false not_lt_bot (by omega)
    · rw [valueX, valueY, placeY]
      exact iff_of_true (WithBot.coe_lt_coe.mpr (WithTop.coe_lt_top _)) highX
  · rcases extended_cases numberY with ⟨valueY, lowY, -⟩ | ⟨valueY, placeY⟩ | ⟨valueY, placeY⟩
    · rw [valueX, valueY, placeX]
      exact iff_of_true (WithBot.bot_lt_coe _) lowY
    · rw [valueX, valueY, placeX, placeY, lt_self_iff_false, lt_self_iff_false]
    · rw [valueX, valueY, placeX, placeY]
      exact iff_of_true bot_lt_top ends
  · rw [valueX, placeX]
    apply iff_of_false not_top_lt
    rcases extended_cases numberY with ⟨-, -, highY⟩ | ⟨-, placeY⟩ | ⟨-, placeY⟩ <;> omega

theorem lt_iff_position : x.lt y = true ↔
    x.isNaN = false ∧ y.isNaN = false ∧ x.position < y.position := by
  rw [lt, Bool.and_eq_true, Bool.and_eq_true, Bool.not_eq_true', Bool.not_eq_true',
    decide_eq_true_iff, and_assoc]

/-- The IEEE order is the order of what the numbers stand for. -/
theorem lt_iff_extended : x.lt y = true ↔
    x.isNaN = false ∧ y.isNaN = false ∧ x.extended < y.extended := by
  rw [lt_iff_position]
  refine and_congr_right fun numberX => and_congr_right fun numberY => ?_
  exact (extended_lt_extended_iff numberX numberY).symm

/-! ## The total order -/

/-- The signed word of a pattern in the total order: all bits but the sign are flipped if
the sign is set. -/
def totalKey (x : Binary64) : Int64 :=
  x.bits.toInt64 ^^^ ((x.bits.toInt64 >>> 63).toUInt64 >>> 1).toInt64

/-- The total order of patterns. -/
def totalCompare (x y : Binary64) : Ordering := compare x.totalKey y.totalKey

/-- The sign bit, shifted over all other bits. -/
theorem toNat_shifted_sign (word : BitVec 64) :
    (word.sshiftRight 63 >>> 1).toNat = if 2 ^ 63 ≤ word.toNat then 2 ^ 63 - 1 else 0 := by
  have bound := word.isLt
  have sign : word.msb = decide (2 ^ 63 ≤ word.toNat) := word.msb_eq_decide
  split
  next negative =>
    have high : ~~~word >>> 63 = 0#64 := by
      apply BitVec.eq_of_toNat_eq
      rw [BitVec.toNat_ushiftRight, BitVec.toNat_not, Nat.shiftRight_eq_div_pow]
      exact Nat.div_eq_of_lt (by omega)
    rw [BitVec.sshiftRight_eq_of_msb_true (sign.trans (decide_eq_true negative)), high]
    rfl
  next positive =>
    have high : word >>> 63 = 0#64 := by
      apply BitVec.eq_of_toNat_eq
      rw [BitVec.toNat_ushiftRight, Nat.shiftRight_eq_div_pow]
      exact Nat.div_eq_of_lt (by omega)
    rw [BitVec.sshiftRight_eq_of_msb_false (sign.trans (decide_eq_false positive)), high]
    rfl

theorem xor_two_pow_sub_one {m n : ℕ} (bound : m < 2 ^ n) : m ^^^ (2 ^ n - 1) = 2 ^ n - 1 - m := by
  have flipped := congrArg BitVec.toNat (BitVec.xor_allOnes (x := BitVec.ofNat n m))
  rwa [BitVec.toNat_xor, BitVec.toNat_not, BitVec.toNat_allOnes, BitVec.toNat_ofNat,
    Nat.mod_eq_of_lt bound] at flipped

/-- Flipping the bits below the sign bit. -/
theorem xor_below_sign (w : ℕ) :
    w ^^^ (2 ^ 63 - 1) = w / 2 ^ 63 * 2 ^ 63 + (2 ^ 63 - 1 - w % 2 ^ 63) := by
  have low : (w ^^^ (2 ^ 63 - 1)) % 2 ^ 63 = 2 ^ 63 - 1 - w % 2 ^ 63 := by
    rw [Nat.xor_mod_two_pow]
    exact xor_two_pow_sub_one (Nat.mod_lt _ (by decide))
  have high : (w ^^^ (2 ^ 63 - 1)) / 2 ^ 63 = w / 2 ^ 63 := by
    rw [Nat.xor_div_two_pow]
    exact Nat.xor_zero _
  rw [← low, ← high]
  exact (Nat.div_add_mod' _ _).symm

/-- The key of a pattern is its magnitude, or the magnitude taken to the other side of
zero and one further. -/
theorem toInt_totalKey (x : Binary64) :
    x.totalKey.toInt = if x.isNegative then -(x.magnitude : ℤ) - 1 else x.magnitude := by
  have bound : x.bits.toNat < 2 ^ 64 := x.bits.toNat_lt
  have sign : x.isNegative = decide (2 ^ 63 ≤ x.bits.toNat) := rfl
  have size : x.magnitude = x.bits.toNat % 2 ^ 63 := rfl
  have word : x.totalKey.toBitVec.toNat =
      x.bits.toNat ^^^ if 2 ^ 63 ≤ x.bits.toNat then 2 ^ 63 - 1 else 0 :=
    (BitVec.toNat_xor _ _).trans (congrArg (x.bits.toNat ^^^ ·) (toNat_shifted_sign _))
  rw [← Int64.toInt_toBitVec, BitVec.toInt_eq_toNat_cond, word, sign, size]
  by_cases negative : 2 ^ 63 ≤ x.bits.toNat
  · rw [if_pos negative, decide_eq_true negative, xor_below_sign, if_neg (by omega), if_pos rfl]
    omega
  · rw [if_neg negative, decide_eq_false negative, Nat.xor_zero, if_pos (by omega),
      if_neg Bool.false_ne_true]
    omega

/-- No two patterns have one key. -/
theorem totalKey_inj : x.totalKey = y.totalKey ↔ x = y := by
  refine ⟨fun same => ?_, congrArg totalKey⟩
  have keys := congrArg Int64.toInt same
  rw [toInt_totalKey, toInt_totalKey] at keys
  have fields : x.isNegative = y.isNegative ∧ x.magnitude = y.magnitude := by
    split at keys <;> split at keys <;> grind
  exact eq_of_fields fields.1 fields.2

theorem totalCompare_eq_iff : x.totalCompare y = .eq ↔ x = y := by
  rw [totalCompare, Std.compare_eq_iff_eq, totalKey_inj]

end Binary64

end Abacus
