import Abacus.Proofs.Eval.NaN
import Abacus.Proofs.Number.Order

/-!
# The three comparisons

Two numbers are compared for equality as constants are, and for order as IEEE numbers
are.  These are two notions.  Equality goes by the total order of patterns, which tells
the two zeros apart, but counts every NaN as one.  The orders do not tell the zeros apart,
and put no NaN below or above anything.

One law says when any of the three comparisons holds (`Comparison.holds_iff`).  From it
follows how they fit together: at most one of them holds for two numbers, and none does
exactly where the two notions part.
-/

namespace Abacus

/-! ## Equality -/

theorem Binary64.isNaN_canonical (x : Binary64) : x.canonical.isNaN = x.isNaN := by
  unfold canonical
  split
  next nan => exact nan.symm
  next => rfl

/-- Numbers make one constant exactly if they differ in the choice of NaN at most. -/
theorem Constant.ofNumber_eq_iff (x y : Binary64) :
    Constant.ofNumber x = Constant.ofNumber y ↔ x.UpToNaN y := by
  rw [ofNumber, ofNumber, Constant.mk.injEq]
  constructor
  · intro same
    have class_eq : x.isNaN = y.isNaN := by
      rw [← x.isNaN_canonical, ← y.isNaN_canonical, same]
    unfold Binary64.canonical at same
    rw [class_eq] at same
    split at same
    next nan => exact .inr ⟨class_eq.trans nan, nan⟩
    next => exact .inl same
  · exact Binary64.UpToNaN.canonical_eq

theorem Comparison.holds_equals_iff (x y : Binary64) :
    Comparison.holds .equals x y = true ↔ x.UpToNaN y :=
  Binary64.UpToNaN.iff_same.symm

/-- Equality at run time is equality of constants.  So it goes by the total order of
patterns, but counts all NaNs as one, it is an equivalence relation on all patterns, and
a constant equals the number that it was made of, and makes itself again. -/
theorem equals_iff_constants_eq :
    (∀ a b : Binary64, Comparison.holds .equals a b = true ↔
      Constant.ofNumber a = Constant.ofNumber b) ∧
    (∀ a b : Binary64, Comparison.holds .equals a b = true ↔
      a.isNaN = true ∧ b.isNaN = true ∨ a.totalCompare b = .eq) ∧
    Equivalence (fun a b : Binary64 => Comparison.holds .equals a b = true) ∧
    (∀ a : Binary64, Comparison.holds .equals (Constant.ofNumber a).value a = true) ∧
    (∀ a : Binary64, Constant.ofNumber (Constant.ofNumber a).value = Constant.ofNumber a) := by
  have key (a b : Binary64) : Comparison.holds .equals a b = true ↔
      Constant.ofNumber a = Constant.ofNumber b :=
    (Comparison.holds_equals_iff a b).trans (Constant.ofNumber_eq_iff a b).symm
  have again (a : Binary64) : Constant.ofNumber (Constant.ofNumber a).value = Constant.ofNumber a :=
    (Constant.mk.injEq ..).mpr a.canonical_canonical
  refine ⟨key, fun a b => ?_, ⟨fun a => ?_, fun {a b} same => ?_, fun {a b c} first second => ?_⟩,
    fun a => ?_, again⟩
  · rw [Comparison.holds_equals_iff, Binary64.totalCompare_eq_iff, Binary64.UpToNaN, or_comm]
  · exact (key a a).mpr rfl
  · exact (key b a).mpr ((key a b).mp same).symm
  · exact (key a c).mpr (((key a b).mp first).trans ((key b c).mp second))
  · exact (key _ _).mpr (again a)

/-! ## All three -/

namespace Comparison

/-- How two numbers lie for which a comparison holds. -/
def ordering : Comparison → Ordering
  | equals => .eq
  | lessThan => .lt
  | greaterThan => .gt

/-- The comparison that holds for two numbers that lie in the given order. -/
def ofOrdering : Ordering → Comparison
  | .eq => equals
  | .lt => lessThan
  | .gt => greaterThan

theorem ofOrdering_ordering (op : Comparison) : ofOrdering op.ordering = op := by
  cases op <;> rfl

theorem ordering_ofOrdering (o : Ordering) : (ofOrdering o).ordering = o := by
  cases o <;> rfl

/-- When a comparison holds.  Two NaNs are equal.  Two numbers compare by their places,
unless they are the two zeros, which do not compare at all. -/
theorem holds_iff (op : Comparison) (x y : Binary64) : op.holds x y = true ↔
    x.isNaN = true ∧ y.isNaN = true ∧ op = equals ∨
    x.isNaN = false ∧ y.isNaN = false ∧ ¬x.OppositeZeros y ∧
      compare x.position y.position = op.ordering := by
  cases op with
  | equals =>
    have places : compare x.position y.position = ordering equals ↔ x = y ∨ x.OppositeZeros y :=
      compare_eq_iff_eq.trans Binary64.position_eq_iff
    rw [holds_equals_iff, places]
    constructor
    · rintro (rfl | ⟨nanX, nanY⟩)
      · cases nan : x.isNaN with
        | true => exact .inl ⟨rfl, rfl, rfl⟩
        | false => exact .inr ⟨rfl, rfl, fun zeros => zeros.ne rfl, .inl rfl⟩
      · exact .inl ⟨nanX, nanY, rfl⟩
    · rintro (⟨nanX, nanY, -⟩ | ⟨-, -, nonzero, same | zeros⟩)
      · exact .inr ⟨nanX, nanY⟩
      · exact .inl same
      · exact absurd zeros nonzero
  | lessThan =>
    refine Binary64.lt_iff_position.trans ⟨?_, ?_⟩
    · rintro ⟨numberX, numberY, less⟩
      have nonzero : ¬x.OppositeZeros y := fun zeros =>
        less.ne (Binary64.position_eq_iff.mpr (.inr zeros))
      exact .inr ⟨numberX, numberY, nonzero, compare_lt_iff_lt.mpr less⟩
    · rintro (⟨-, -, other⟩ | ⟨numberX, numberY, -, less⟩)
      · cases other
      · exact ⟨numberX, numberY, compare_lt_iff_lt.mp less⟩
  | greaterThan =>
    refine Binary64.lt_iff_position.trans ⟨?_, ?_⟩
    · rintro ⟨numberY, numberX, less⟩
      have nonzero : ¬x.OppositeZeros y := fun zeros =>
        less.ne' (Binary64.position_eq_iff.mpr (.inr zeros))
      exact .inr ⟨numberX, numberY, nonzero, compare_gt_iff_gt.mpr less⟩
    · rintro (⟨-, -, other⟩ | ⟨numberX, numberY, -, less⟩)
      · cases other
      · exact ⟨numberY, numberX, compare_gt_iff_gt.mp less⟩

/-- At most one comparison holds. -/
theorem holds_unique {op op' : Comparison} {x y : Binary64} (holds : op.holds x y = true)
    (holds' : op'.holds x y = true) : op = op' := by
  rw [holds_iff] at holds holds'
  rcases holds with ⟨nan, -, rfl⟩ | ⟨number, -, -, order⟩
  · rcases holds' with ⟨-, -, rfl⟩ | ⟨number, -⟩
    · rfl
    · rw [nan] at number
      contradiction
  · rcases holds' with ⟨nan, -⟩ | ⟨-, -, -, order'⟩
    · rw [nan] at number
      contradiction
    · rw [← op.ofOrdering_ordering, ← order, order', op'.ofOrdering_ordering]

/-- No comparison holds exactly for a NaN and a number, and for the two zeros. -/
theorem forall_not_holds_iff (x y : Binary64) : (∀ op : Comparison, op.holds x y = false) ↔
    x.isNaN ≠ y.isNaN ∨ x.OppositeZeros y := by
  constructor
  · intro none
    by_contra! comparable
    obtain ⟨class_eq, nonzero⟩ := comparable
    have some : ∃ op : Comparison, op.holds x y = true := by
      cases nan : x.isNaN with
      | true => exact ⟨equals, (holds_iff _ x y).mpr (.inl ⟨nan, class_eq ▸ nan, rfl⟩)⟩
      | false =>
        exact ⟨ofOrdering (compare x.position y.position), (holds_iff _ x y).mpr
          (.inr ⟨nan, class_eq ▸ nan, nonzero, (ordering_ofOrdering _).symm⟩)⟩
    obtain ⟨op, holds⟩ := some
    rw [none op] at holds
    contradiction
  · intro apart op
    rw [← Bool.not_eq_true, holds_iff]
    rintro (⟨nanX, nanY, -⟩ | ⟨numberX, numberY, nonzero, -⟩)
    · rcases apart with classes | zeros
      · exact classes (nanX.trans nanY.symm)
      · rw [zeros.not_isNaN.1] at nanX
        contradiction
    · rcases apart with classes | zeros
      · exact classes (numberX.trans numberY.symm)
      · exact nonzero zeros

end Comparison

/-- The comparisons partition the pairs of numbers.  The two orders are those of what the
numbers stand for, and have no place for NaN.  At most one comparison holds.  None holds
exactly if one number is NaN and the other is not, or if they are the two zeros.  One
order is the other one turned around, it is transitive, and it does not tell numbers
apart that are equal. -/
theorem comparisons_partition :
    (∀ a b : Binary64,
      (Comparison.holds .lessThan a b = true ↔
        a.isNaN = false ∧ b.isNaN = false ∧ a.extended < b.extended) ∧
      (Comparison.holds .greaterThan a b = true ↔
        a.isNaN = false ∧ b.isNaN = false ∧ b.extended < a.extended)) ∧
    (∀ (a b : Binary64) (op op' : Comparison),
      op.holds a b = true → op'.holds a b = true → op = op') ∧
    (∀ a b : Binary64, (∀ op : Comparison, op.holds a b = false) ↔
      a.isNaN ≠ b.isNaN ∨ a.OppositeZeros b) ∧
    (∀ a b : Binary64, Comparison.holds .lessThan a b = Comparison.holds .greaterThan b a) ∧
    (∀ a b c : Binary64, Comparison.holds .lessThan a b = true →
      Comparison.holds .lessThan b c = true → Comparison.holds .lessThan a c = true) ∧
    (∀ a a' b b' : Binary64, Comparison.holds .equals a a' = true →
      Comparison.holds .equals b b' = true →
        Comparison.holds .lessThan a b = Comparison.holds .lessThan a' b') := by
  refine ⟨fun a b => ⟨?_, ?_⟩, fun a b op op' => Comparison.holds_unique,
    Comparison.forall_not_holds_iff, fun a b => rfl, fun a b c first second => ?_,
    fun a a' b b' left right => ?_⟩
  · exact Binary64.lt_iff_extended
  · exact Binary64.lt_iff_extended.trans and_left_comm
  · obtain ⟨numberA, -, less⟩ := Binary64.lt_iff_position.mp first
    obtain ⟨-, numberC, less'⟩ := Binary64.lt_iff_position.mp second
    exact Binary64.lt_iff_position.mpr ⟨numberA, numberC, less.trans less'⟩
  · rw [Comparison.holds_equals_iff] at left right
    exact left.lt_eq right

/-- Across the zeros, from an infinity to the smallest number, and two NaNs of different sign
and payload beside one number. -/
theorem comparisons_partition_aroundZero :
    Comparison.holds .lessThan ⟨0xfff0000000000000⟩ ⟨0x8000000000000000⟩ = true ∧
    Comparison.holds .lessThan ⟨0x8000000000000000⟩ ⟨1⟩ = true ∧
    Comparison.holds .lessThan ⟨0xfff0000000000000⟩ ⟨1⟩ = true ∧
    Binary64.OppositeZeros ⟨0x8000000000000000⟩ ⟨0⟩ ∧
    (∀ op : Comparison, op.holds ⟨0x8000000000000000⟩ ⟨0⟩ = false) ∧
    Comparison.holds .equals ⟨0x7ff0000000000001⟩ ⟨0xfff8000000000000⟩ = true ∧
    Comparison.holds .equals ⟨1⟩ ⟨1⟩ = true ∧
    Comparison.holds .lessThan ⟨0x7ff0000000000001⟩ ⟨1⟩ =
      Comparison.holds .lessThan ⟨0xfff8000000000000⟩ ⟨1⟩ := by
  obtain ⟨-, -, none, -, transitive, congruent⟩ := comparisons_partition
  have below : Comparison.holds .lessThan ⟨0xfff0000000000000⟩ ⟨0x8000000000000000⟩ = true := by
    decide
  have above : Comparison.holds .lessThan ⟨0x8000000000000000⟩ ⟨1⟩ = true := by decide
  have zeros : Binary64.OppositeZeros ⟨0x8000000000000000⟩ ⟨0⟩ := by
    refine ⟨?_, ?_, ?_⟩ <;> decide
  have nans : Comparison.holds .equals ⟨0x7ff0000000000001⟩ ⟨0xfff8000000000000⟩ = true := by
    decide
  have itself : Comparison.holds .equals ⟨1⟩ ⟨1⟩ = true := by decide
  exact ⟨below, above, transitive _ _ _ below above, zeros, (none _ _).mpr (.inr zeros), nans,
    itself, congruent _ _ _ _ nans itself⟩

end Abacus
