import Abacus.Proofs.Number.Numeral
import Abacus.Proofs.Number.TiesToEven

/-!
# No decimal is shorter

Of all decimals that round to a number, the shortest one has the fewest digits, and of
those with as many digits it is the nearest to the number.  If there are two of these, the
tie decides between them (`IsShortest`, `isShortest_shortest`).

The search looks at two decimals on each grid, the neighbours of the number, and the
decimals with few digits are many.  Two things make up for that.  The values that round
to a number form an interval around it, so with a value also the neighbour on the same
side rounds to the number, and is as near (`neighbour_of_covers`).  And a decimal with few
digits does not lie between the neighbours on a coarse grid.  It is on the grid itself, or
there is a power of ten between it and the number, which is on the grid
(`outside_of_fits`).
-/

namespace Abacus

/-! ## Digits -/

/-- The number of digits of a decimal, without zeros at its ends. -/
def Decimal.digitCount (d : Decimal) : ℕ := (significantDigits d.coefficient).length

/-- A number of digits is enough to write the value. -/
def Fits (n : ℕ) (v : ℚ) : Prop := ∃ m < 10 ^ n, ∃ j : ℤ, v = (m : ℕ) * 10 ^ j

theorem significantDigits_mul_ten (m : ℕ) : significantDigits (m * 10) = significantDigits m := by
  rcases m.eq_zero_or_pos with rfl | positive
  · rfl
  · have digits : Nat.toDigits 10 (m * 10) = Nat.toDigits 10 m ++ ['0'] := by
      have split := Nat.toDigits_append_toDigits (by decide : 1 < 10) positive
        (by decide : 0 < 10)
      rw [Nat.mul_comm, ← Nat.add_zero (10 * m), ← split]
      rfl
    rw [significantDigits, digits, List.reverse_append, significantDigits]
    rfl

theorem significantDigits_mul_pow (m k : ℕ) :
    significantDigits (m * 10 ^ k) = significantDigits m := by
  induction k with
  | zero => rw [pow_zero, Nat.mul_one]
  | succ k ih => rw [pow_succ, ← Nat.mul_assoc, significantDigits_mul_ten, ih]

/-- A coefficient is its significant digits with zeros behind them. -/
theorem exists_eq_mul_pow (c : ℕ) :
    ∃ m < 10 ^ (significantDigits c).length, ∃ k, c = m * 10 ^ k := by
  obtain ⟨k, split⟩ := toDigits_eq_significantDigits c
  have value : c = Nat.ofDigitChars 10 (significantDigits c) 0 * 10 ^ k := by
    rw [Nat.mul_comm, ← Nat.ofDigitChars_replicate_zero, ← Nat.ofDigitChars_append, ← split,
      Nat.ofDigitChars_ten_toDigits]
  have bound : c < 10 ^ ((significantDigits c).length + k) := by
    have length : (Nat.toDigits 10 c).length = (significantDigits c).length + k := by
      rw [split, List.length_append, List.length_replicate]
    rw [← length]
    exact (Nat.length_toDigits_le_iff (by decide) Nat.length_toDigits_pos).mp (Nat.le_refl _)
  refine ⟨_, ?_, k, value⟩
  rw [pow_add] at bound
  exact Nat.lt_of_mul_lt_mul_right (value.symm.trans_lt bound)

theorem length_significantDigits_le {c n : ℕ} (small : c < 10 ^ n) :
    (significantDigits c).length ≤ n := by
  rcases n.eq_zero_or_pos with rfl | positive
  · rw [pow_zero, Nat.lt_one_iff] at small
    rw [small]
    rfl
  · obtain ⟨k, split⟩ := toDigits_eq_significantDigits c
    have length := (Nat.length_toDigits_le_iff (by decide) positive).mpr small
    rw [split, List.length_append] at length
    exact Nat.le_of_add_right_le length

/-- The significant digits of a decimal are as many as its value needs. -/
theorem Decimal.fits_iff {d : Decimal} {n : ℕ} : Fits n d.value ↔ d.digitCount ≤ n := by
  have ten : (10 : ℚ) ≠ 0 := by norm_num
  constructor
  · rintro ⟨m, small, j, same⟩
    rw [Decimal.value] at same
    rcases le_total d.exponent j with le | le
    · obtain ⟨k, rfl⟩ := Int.exists_add_of_le le
      have coefficient : d.coefficient = m * 10 ^ k := by
        rw [zpow_add₀ ten, zpow_natCast, mul_comm (10 ^ d.exponent : ℚ), ← mul_assoc] at same
        exact_mod_cast mul_right_cancel₀ (zpow_ne_zero d.exponent ten) same
      rw [digitCount, coefficient, significantDigits_mul_pow]
      exact length_significantDigits_le small
    · obtain ⟨k, up⟩ := Int.exists_add_of_le le
      have coefficient : d.coefficient * 10 ^ k = m := by
        rw [up, zpow_add₀ ten, zpow_natCast, mul_comm (10 ^ j : ℚ), ← mul_assoc] at same
        exact_mod_cast mul_right_cancel₀ (zpow_ne_zero j ten) same
      rw [digitCount, ← significantDigits_mul_pow d.coefficient k, coefficient]
      exact length_significantDigits_le small
  · intro le
    obtain ⟨m, small, k, coefficient⟩ := exists_eq_mul_pow d.coefficient
    refine ⟨m, small.trans_le (Nat.pow_le_pow_right (by decide) le), k + d.exponent, ?_⟩
    rw [Decimal.value, coefficient, zpow_add₀ ten, zpow_natCast]
    push_cast
    ring

/-! ## Neighbours -/

namespace Binary64

/-- A value of the interval, and all between it and the number. -/
theorem Covers.between {x : Binary64} {v w : ℚ} (covers : x.Covers v)
    (between : v ≤ w ∧ w ≤ x.size ∨ x.size ≤ w ∧ w ≤ v) : x.Covers w := by
  have unit := two_zpow_pos x.binaryExponent
  have reach := x.reach_pos
  have own : x.size / 2 ^ x.binaryExponent = x.significand := by
    rw [size, mul_div_assoc, div_self unit.ne', mul_one]
  obtain ⟨low, high, tie⟩ := covers
  rcases between with ⟨left, right⟩ | ⟨left, right⟩
  · have left' := div_le_div_of_nonneg_right left unit.le
    have right' := own ▸ div_le_div_of_nonneg_right right unit.le
    refine ⟨by linarith, by linarith, ?_⟩
    rintro (atEnd | atEnd)
    · exact tie (.inl (by linarith))
    · linarith
  · have left' := own ▸ div_le_div_of_nonneg_right left unit.le
    have right' := div_le_div_of_nonneg_right right unit.le
    refine ⟨by linarith, by linarith, ?_⟩
    rintro (atEnd | atEnd)
    · linarith
    · exact tie (.inr (by linarith))

/-- The value is not strictly between the neighbours of the number. -/
def Outside (x : Binary64) (k : ℕ) (v : ℚ) : Prop :=
  v ≤ x.onGrid k (x.below k) ∨ x.onGrid k (x.below k + 1) ≤ v

theorem size_eq_exactCoefficient (x : Binary64) :
    x.size = x.exactCoefficient * 10 ^ x.decimalExponent := by
  rw [size, exactCoefficient, ← unit_mul_ten_zpow]
  push_cast
  ring

theorem onGrid_le_onGrid {x : Binary64} {k c j d : ℕ} :
    x.onGrid k c ≤ x.onGrid j d ↔ c * 10 ^ k ≤ d * 10 ^ j := by
  have ten : (0 : ℚ) < 10 ^ x.decimalExponent := zpow_pos (by norm_num) _
  rw [onGrid, onGrid, mul_le_mul_iff_left₀ ten, Nat.cast_le]

/-- A number lies between its neighbours. -/
theorem onGrid_below_le (x : Binary64) (k : ℕ) :
    x.onGrid k (x.below k) ≤ x.size ∧ x.size ≤ x.onGrid k (x.below k + 1) := by
  have own : x.size = x.onGrid 0 x.exactCoefficient := by
    rw [size_eq_exactCoefficient, onGrid, pow_zero, Nat.mul_one]
  have upper : x.exactCoefficient < (x.below k + 1) * 10 ^ k :=
    Nat.lt_mul_of_div_lt (Nat.lt_succ_self _) (by positivity)
  rw [own, onGrid_le_onGrid, onGrid_le_onGrid, pow_zero, Nat.mul_one]
  exact ⟨Nat.div_mul_le_self _ _, upper.le⟩

/-- Which of its neighbours a number is nearer to shows in the digits that are cut off. -/
theorem abs_onGrid_sub_le_iff (x : Binary64) (k : ℕ) :
    (|x.onGrid k (x.below k) - x.size| ≤ |x.onGrid k (x.below k + 1) - x.size| ↔
        2 * (x.exactCoefficient % 10 ^ k) ≤ 10 ^ k) ∧
      (|x.onGrid k (x.below k + 1) - x.size| ≤ |x.onGrid k (x.below k) - x.size| ↔
        10 ^ k ≤ 2 * (x.exactCoefficient % 10 ^ k)) := by
  have ten : (0 : ℚ) < 10 ^ x.decimalExponent := zpow_pos (by norm_num) _
  obtain ⟨lower, upper⟩ := x.onGrid_below_le k
  have parts : (x.exactCoefficient : ℚ) =
      x.below k * 10 ^ k + (x.exactCoefficient % 10 ^ k : ℕ) := by
    exact_mod_cast (Nat.div_add_mod' x.exactCoefficient (10 ^ k)).symm
  have left : |x.onGrid k (x.below k) - x.size| =
      (x.exactCoefficient % 10 ^ k : ℕ) * 10 ^ x.decimalExponent := by
    rw [abs_of_nonpos (by linarith), size_eq_exactCoefficient, parts, onGrid]
    push_cast
    ring
  have right : |x.onGrid k (x.below k + 1) - x.size| =
      (10 ^ k - (x.exactCoefficient % 10 ^ k : ℕ)) * 10 ^ x.decimalExponent := by
    rw [abs_of_nonneg (by linarith), size_eq_exactCoefficient, parts, onGrid]
    push_cast
    ring
  rw [left, right, mul_le_mul_iff_left₀ ten, mul_le_mul_iff_left₀ ten, le_sub_iff_add_le,
    sub_le_iff_le_add, ← two_mul]
  norm_cast

/-- Of the two sides, the one that is chosen is the nearer, or the tie has chosen it. -/
theorem IsNeighbour.nearest {tie : Tie} {x : Binary64} {k c c' : ℕ}
    (neighbour : IsNeighbour tie x k c) (side : c' = x.below k ∨ c' = x.below k + 1)
    (accepted : x.roundsTo (c' * 10 ^ k) = true) :
    |x.onGrid k c - x.size| ≤ |x.onGrid k c' - x.size| ∧
      (c' ≠ c → |x.onGrid k c' - x.size| = |x.onGrid k c - x.size| →
        c = tie.choose (x.below k)) := by
  obtain ⟨left, right⟩ := x.abs_onGrid_sub_le_iff k
  obtain ⟨own, chosen, tied⟩ := neighbour
  rcases chosen with ⟨rfl, nearer⟩ | ⟨rfl, nearer⟩ <;> rcases side with rfl | rfl
  · exact ⟨le_rfl, fun other => absurd rfl other⟩
  · refine ⟨left.mpr (nearer accepted), fun _ same => tied own accepted ?_⟩
    exact le_antisymm (nearer accepted) (right.mp same.le)
  · refine ⟨right.mpr (nearer accepted), fun _ same => tied accepted own ?_⟩
    exact le_antisymm (left.mp same.le) (nearer accepted)
  · exact ⟨le_rfl, fun other => absurd rfl other⟩

/-- On the way from a value outside to the number there is a neighbour. -/
theorem Outside.exists_between {x : Binary64} {k : ℕ} {v : ℚ} (outside : x.Outside k v) :
    ∃ c, (c = x.below k ∨ c = x.below k + 1) ∧
      (v ≤ x.onGrid k c ∧ x.onGrid k c ≤ x.size ∨ x.size ≤ x.onGrid k c ∧ x.onGrid k c ≤ v) := by
  obtain ⟨lower, upper⟩ := x.onGrid_below_le k
  rcases outside with left | right
  · exact ⟨_, .inl rfl, .inl ⟨left, lower⟩⟩
  · exact ⟨_, .inr rfl, .inr ⟨upper, right⟩⟩

end Binary64

/-- The decimal is the one that a tie is resolved to, and not the other. -/
def Tie.Prefers : Tie → Decimal → Decimal → Prop
  | .up, d, other => other.value < d.value
  | .even, d, _ => d.coefficient % 2 = 0

namespace Binary64

/-- The decimal is nearer to the number than the other, or as near and preferred. -/
structure Precedes (tie : Tie) (x : Binary64) (d other : Decimal) : Prop where
  nearest : |d.value - x.size| ≤ |other.value - x.size|
  tied : other.value ≠ d.value → |other.value - x.size| = |d.value - x.size| →
    tie.Prefers d other

/-- If a value outside rounds to the number, a neighbour does, and precedes it. -/
theorem neighbour_of_covers (tie : Tie) {x : Binary64} (nonzero : x.magnitude ≠ 0) {k : ℕ}
    {d : Decimal} (covers : x.Covers d.value) (outside : x.Outside k d.value) :
    ∃ c, x.neighbour tie k = some c ∧ x.Precedes tie ⟨c, x.decimalExponent + k⟩ d := by
  obtain ⟨c', side, between⟩ := outside.exists_between
  have accepted : x.roundsTo (c' * 10 ^ k) = true :=
    (roundsTo_iff_covers nonzero).mpr (covers.between between)
  obtain ⟨c, found⟩ := exists_neighbour tie side accepted
  obtain ⟨least, tied⟩ := (isNeighbour_of_neighbour found).nearest side accepted
  have nearer : |x.onGrid k c' - x.size| ≤ |d.value - x.size| ∧
      (|x.onGrid k c' - x.size| = |d.value - x.size| → d.value = x.onGrid k c') := by
    rcases between with ⟨left, right⟩ | ⟨left, right⟩
    · rw [abs_of_nonpos (by linarith), abs_of_nonpos (by linarith)]
      exact ⟨by linarith, fun same => by linarith⟩
    · rw [abs_of_nonneg (by linarith), abs_of_nonneg (by linarith)]
      exact ⟨by linarith, fun same => by linarith⟩
  refine ⟨c, found, ?_, ?_⟩ <;> rw [value_eq_onGrid]
  · exact least.trans nearer.1
  · intro other same
    -- as near as the choice, the value is the neighbour on the other side
    have atNeighbour := nearer.2 (le_antisymm nearer.1 (same.trans_le least))
    rw [atNeighbour] at other same
    have chosen := tied (fun equal => other (equal ▸ rfl)) same
    cases tie with
    | up =>
      rw [Tie.Prefers, value_eq_onGrid, atNeighbour]
      refine lt_of_le_of_ne (onGrid_le_onGrid.mpr (Nat.mul_le_mul_right _ ?_)) other
      rw [chosen, Tie.choose]
      omega
    | even =>
      have even : c % 2 = 0 := by
        rw [chosen, Tie.choose]
        omega
      exact even

/-! ## Few digits -/

/-- The position of the leading digit of a number, counted in units. -/
theorem exists_leading {x : Binary64} (nonzero : x.magnitude ≠ 0) :
    ∃ top, (Nat.toDigits 10 x.exactCoefficient).length - 1 = top ∧
      10 ^ top ≤ x.exactCoefficient ∧ x.exactCoefficient < 10 ^ (top + 1) := by
  have positive : 0 < x.exactCoefficient := Nat.mul_pos (x.significand_pos nonzero) x.unit_pos
  obtain ⟨top, length⟩ := Nat.exists_eq_add_of_le'
    (Nat.length_toDigits_pos : 0 < (Nat.toDigits 10 x.exactCoefficient).length)
  refine ⟨top, by omega, ?_, (Nat.length_toDigits_le_iff (by decide) top.succ_pos).mp length.le⟩
  rcases top.eq_zero_or_pos with rfl | later
  · rwa [pow_zero]
  · by_contra less
    have short := (Nat.length_toDigits_le_iff (by decide) later).mpr (not_le.mp less)
    omega

/-- A value of few digits is not between the neighbours on a coarse grid.  If it is not on
the grid itself, it is less than the power of ten at the leading digit of the number. -/
theorem outside_of_fits {x : Binary64} {n k top : ℕ} {v : ℚ} (fits : Fits n v)
    (lead : 10 ^ top ≤ x.exactCoefficient) (within : k ≤ top) (few : n + k ≤ top + 1) :
    x.Outside k v := by
  have ten : (10 : ℚ) ≠ 0 := by norm_num
  obtain ⟨m, small, j, rfl⟩ := fits
  rcases lt_or_ge j (x.decimalExponent + k) with fine | coarse
  · left
    have leading : x.onGrid top 1 ≤ x.onGrid k (x.below k) := by
      have split : 10 ^ top = 10 ^ (top - k) * 10 ^ k := by
        rw [← pow_add, Nat.sub_add_cancel within]
      rw [onGrid_le_onGrid, Nat.one_mul, split]
      refine Nat.mul_le_mul_right _ ((Nat.le_div_iff_mul_le (by positivity)).mpr ?_)
      rw [← split]
      exact lead
    calc (m : ℚ) * 10 ^ j ≤ 10 ^ n * 10 ^ j := by
          gcongr
          exact_mod_cast small.le
      _ = 10 ^ ((n : ℤ) + j) := by rw [zpow_add₀ ten, zpow_natCast]
      _ ≤ 10 ^ ((top : ℤ) + x.decimalExponent) :=
          zpow_le_zpow_right₀ (by norm_num) (by omega)
      _ = x.onGrid top 1 := by
          rw [zpow_add₀ ten, zpow_natCast, onGrid]
          push_cast
          ring
      _ ≤ x.onGrid k (x.below k) := leading
  · obtain ⟨i, rfl⟩ := Int.exists_add_of_le coarse
    have multiple : (m : ℚ) * 10 ^ (x.decimalExponent + k + i) = x.onGrid k (m * 10 ^ i) := by
      rw [zpow_add₀ ten, zpow_add₀ ten, zpow_natCast, zpow_natCast, onGrid]
      push_cast
      ring
    rw [Outside, multiple, onGrid_le_onGrid, onGrid_le_onGrid]
    rcases Nat.lt_or_ge (x.below k) (m * 10 ^ i) with above | below
    · exact .inr (Nat.mul_le_mul_right _ above)
    · exact .inl (Nat.mul_le_mul_right _ below)

/-- A decimal that rounds to a number has a digit. -/
theorem Covers.digitCount_pos {x : Binary64} {d : Decimal} (covers : x.Covers d.value)
    (nonzero : x.magnitude ≠ 0) : 0 < d.digitCount := by
  by_contra none
  obtain ⟨m, zero, j, value⟩ := Decimal.fits_iff.mpr (not_lt.mp none)
  rw [pow_zero, Nat.lt_one_iff] at zero
  have positive := covers.pos nonzero
  rw [value, zero, Nat.cast_zero, zero_mul] at positive
  exact lt_irrefl 0 positive

/-- What is chosen on a grid has no digits finer than the grid. -/
theorem IsNeighbour.digitCount_le {tie : Tie} {x : Binary64} {k c top : ℕ}
    (neighbour : IsNeighbour tie x k c) (within : k ≤ top)
    (lead : x.exactCoefficient < 10 ^ (top + 1)) (e : ℤ) :
    Decimal.digitCount ⟨c, e⟩ ≤ top + 1 - k := by
  have bound : x.below k < 10 ^ (top + 1 - k) := by
    rw [below, Nat.div_lt_iff_lt_mul (by positivity), ← pow_add, Nat.sub_add_cancel (by omega)]
    exact lead
  rw [Decimal.digitCount]
  rcases neighbour.side with ⟨rfl, -⟩ | ⟨rfl, -⟩
  · exact length_significantDigits_le bound
  · rcases Nat.lt_or_eq_of_le (show x.below k + 1 ≤ _ from bound) with less | power
    · exact length_significantDigits_le less
    · -- all digits below were nines, and the next number is a power of ten
      rw [power, ← Nat.one_mul (10 ^ _), significantDigits_mul_pow]
      exact (by omega : 1 ≤ top + 1 - k)

/-! ## The shortest decimal -/

/-- The decimal is the shortest one that rounds to the number. -/
structure IsShortest (tie : Tie) (x : Binary64) (d : Decimal) : Prop where
  rounds : x.Nearest d.value
  fewest : ∀ other : Decimal, x.Nearest other.value → d.digitCount ≤ other.digitCount
  first : ∀ other : Decimal, x.Nearest other.value → other.digitCount = d.digitCount →
    x.Precedes tie d other

/-- The search finds the shortest decimal that rounds to a number. -/
theorem isShortest_shortest (tie : Tie) {x : Binary64} (finite : x.isFinite = true)
    (nonzero : x.magnitude ≠ 0) : IsShortest tie x (x.shortest tie) := by
  obtain ⟨top, length, lead, next⟩ := exists_leading nonzero
  obtain ⟨k, within, c, result, found, coarsest⟩ := searchFrom_spec tie nonzero top
  have shortest : x.shortest tie = ⟨c, x.decimalExponent + k⟩ := by
    rw [Binary64.shortest, length, result]
  have few := (isNeighbour_of_neighbour found).digitCount_le within next (x.decimalExponent + k)
  -- a decimal of few digits that rounds to the number shows on a coarse grid
  have shows (d : Decimal) (j : ℕ) (rounds : x.Nearest d.value) (coarse : j ≤ top)
      (count : d.digitCount + j ≤ top + 1) := neighbour_of_covers tie nonzero
    (rounds.covers finite nonzero) (outside_of_fits (Decimal.fits_iff.mpr le_rfl) lead coarse count)
  rw [shortest]
  refine ⟨shortest ▸ (covers_shortest tie nonzero).nearest, fun d rounds => ?_,
    fun d rounds same => ?_⟩
  · by_contra fewer
    have some := (rounds.covers finite nonzero).digitCount_pos nonzero
    obtain ⟨c', coarser, -⟩ := shows d (k + 1) rounds (by omega) (by omega)
    rw [coarsest (k + 1) (by omega) (Nat.lt_succ_self k)] at coarser
    cases coarser
  · obtain ⟨c', again, precedes⟩ := shows d k rounds within (by omega)
    rw [found] at again
    cases again
    exact precedes

end Binary64

end Abacus
