import Abacus.Number.Rounding

/-!
# The shortest decimal of a number

A finite number is written with the fewest digits that read back as the same
number, and among those with the digits nearest to it.  Two decimals can be
equally near, as for `2 ^ -25`, and a `Tie` says which of them is taken.

The computation is exact.  A positive finite number is `significand · 2 ^ q`,
and since `2 ^ q` is a natural number of units `10 ^ min q 0`, it is also a
natural number of those units, its `exactCoefficient`.  The reals that round to
the number form an interval around it whose ends, too, are natural numbers in
quarters of that unit.  Dropping the last `k` digits of the exact coefficient
leaves two neighbours on the coarser grid, one below and one above.  The
search tries the coarsest grid first and takes the first grid on which a
neighbour lies in the interval.  On the finest grid the number is its own
neighbour, so the search always ends with a decimal that reads back.
-/

namespace Abacus

/-- The number `coefficient · 10 ^ exponent`. -/
structure Decimal where
  /-- The digits, as a natural number. -/
  coefficient : Nat
  /-- The power of ten that the last digit counts. -/
  exponent : Int
  deriving DecidableEq, Inhabited

/-- Which of two equally near neighbours is taken. -/
inductive Tie where
  /-- The upper one. -/
  | up
  /-- The even one. -/
  | even
  deriving DecidableEq, Inhabited

/-- The choice between `below` and `below + 1`. -/
def Tie.choose : Tie → Nat → Nat
  | .up, below => below + 1
  | .even, below => below + below % 2

/-- The binary64 number nearest to a decimal, with the given sign. -/
def Decimal.nearest (d : Decimal) (negative : Bool) : Binary64 :=
  .ofRatio negative (d.coefficient * Nat.pow 10 d.exponent.toNat) (Nat.pow 10 (-d.exponent).toNat)

namespace Binary64

/-! ## The exact value -/

/-- The exponent field, with that of the subnormal numbers read as `1`. -/
def exponentField (x : Binary64) : Nat := max (x.magnitude / exponentBit) 1

/-- The significand of a finite number, as a natural number. -/
def significand (x : Binary64) : Nat :=
  if x.magnitude / exponentBit = 0 then x.magnitude
  else x.magnitude % exponentBit + exponentBit

/-- The power of two that the last bit of the significand counts. -/
def binaryExponent (x : Binary64) : Int := (x.exponentField : Int) - 1075

/-- The power of ten that the exact coefficient counts. -/
def decimalExponent (x : Binary64) : Int := min x.binaryExponent 0

/-- The last bit of the significand, in units of the decimal exponent. -/
def unit (x : Binary64) : Nat :=
  Nat.pow 2 x.binaryExponent.toNat * Nat.pow 5 (-x.binaryExponent).toNat

/-- The absolute value, in units of the decimal exponent. -/
def exactCoefficient (x : Binary64) : Nat := x.significand * x.unit

/-! ## The interval of reals that round to the number -/

/-- The upper end of the rounding interval, in quarter units. -/
def upperQuarters (x : Binary64) : Nat := (4 * x.significand + 2) * x.unit

/-- The lower end of the rounding interval, in quarter units.  Below a power of
two the numbers lie twice as dense, so there the interval is shorter. -/
def lowerQuarters (x : Binary64) : Nat :=
  if x.magnitude % exponentBit = 0 ∧ 1 < x.exponentField then (4 * x.significand - 1) * x.unit
  else (4 * x.significand - 2) * x.unit

/-- Whether `c` units rounds to the number.  The ends of the interval do so
when the significand is even. -/
def roundsTo (x : Binary64) (c : Nat) : Bool :=
  if x.significand % 2 = 0 then
    decide (x.lowerQuarters ≤ 4 * c ∧ 4 * c ≤ x.upperQuarters)
  else
    decide (x.lowerQuarters < 4 * c ∧ 4 * c < x.upperQuarters)

/-! ## The search -/

/-- A neighbour of the number on the grid of multiples of `10 ^ k` units that
rounds to it, in multiples of `10 ^ k`.  Of two neighbours the nearer is taken. -/
def neighbour (tie : Tie) (x : Binary64) (k : Nat) : Option Nat :=
  let grid := Nat.pow 10 k
  let below := x.exactCoefficient / grid
  let rest := x.exactCoefficient % grid
  match x.roundsTo (below * grid), x.roundsTo ((below + 1) * grid) with
  | true, true =>
    some (if 2 * rest < grid then below
      else if grid < 2 * rest then below + 1
      else tie.choose below)
  | true, false => some below
  | false, true => some (below + 1)
  | false, false => none

/-- The first neighbour found when at most `k` digits may be dropped, coarsest grid first. -/
def searchFrom (tie : Tie) (x : Binary64) : Nat → Decimal
  | 0 => ⟨x.exactCoefficient, x.decimalExponent⟩
  | k + 1 =>
    match x.neighbour tie (k + 1) with
    | some c => ⟨c, x.decimalExponent + (k + 1 : Nat)⟩
    | none => x.searchFrom tie k

/-- The shortest decimal that reads back as the absolute value of a nonzero finite number. -/
def shortest (tie : Tie) (x : Binary64) : Decimal :=
  x.searchFrom tie ((Nat.toDigits 10 x.exactCoefficient).length - 1)

end Binary64

end Abacus
