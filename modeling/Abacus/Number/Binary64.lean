/-!
# Binary64 numbers

The language computes with IEEE 754 binary64 numbers.  A `Binary64` is the
64-bit pattern itself: a sign bit, eleven exponent bits and fifty-two fraction
bits.  Keeping the pattern, and not only the number it denotes, is what lets
the two zeros and the many patterns of NaN be told apart where the language
does tell them apart.

Without its sign bit a pattern is a natural number, its *magnitude*.
Magnitudes are ordered as the numbers they stand for, with infinity at
`infinityMagnitude` and every NaN above it.  So the classes and the order are
plain statements on naturals and integers.

The four arithmetic operations are those of `Float`, which has one NaN: a NaN
operand counts as that NaN, and a NaN result is that NaN.  The power is the one
operation taken from the platform, and the one that tells NaNs apart.  A *quiet*
NaN has the first fraction bit set and a *signaling* one has not.  The power of
`1`, and the power with exponent `0`, is `1` for a quiet NaN and NaN for a
signaling one.  Every NaN that an operation gives is quiet.
-/

namespace Abacus

/-- A binary64 number, as its bit pattern. -/
structure Binary64 where
  /-- The pattern: sign, exponent and fraction, from the most significant bit down. -/
  bits : UInt64
  deriving DecidableEq, Inhabited

namespace Binary64

/-! ## Classes -/

/-- The weight of the sign bit. -/
def signBit : Nat := 0x8000000000000000

/-- The weight of the last exponent bit, and so the number of fractions. -/
def exponentBit : Nat := 0x10000000000000

/-- The magnitude of the two infinities.  A larger magnitude is a NaN. -/
def infinityMagnitude : Nat := 0x7ff0000000000000

/-- Whether the sign bit is set. -/
def isNegative (x : Binary64) : Bool := decide (signBit ≤ x.bits.toNat)

/-- The pattern without its sign bit. -/
def magnitude (x : Binary64) : Nat := x.bits.toNat % signBit

/-- Whether the pattern is one of the NaNs, of any sign and payload. -/
def isNaN (x : Binary64) : Bool := decide (infinityMagnitude < x.magnitude)

/-- The least magnitude of a quiet NaN.  The NaNs of smaller magnitude are signaling. -/
def quietMagnitude : Nat := 0x7ff8000000000000

/-- Whether the pattern is a signaling NaN, of any sign and payload. -/
def isSignaling (x : Binary64) : Bool := x.isNaN && decide (x.magnitude < quietMagnitude)

/-- Whether the pattern stands for a real number. -/
def isFinite (x : Binary64) : Bool := decide (x.magnitude < infinityMagnitude)

/-- The pattern with the given sign and a magnitude below the sign bit. -/
def ofMagnitude (negative : Bool) (magnitude : Nat) : Binary64 :=
  ⟨(if negative then signBit + magnitude else magnitude).toUInt64⟩

theorem not_isNaN_of_isFinite {x : Binary64} (finite : x.isFinite = true) : x.isNaN = false :=
  decide_eq_false (Nat.not_lt_of_le (Nat.le_of_lt (of_decide_eq_true finite)))

theorem magnitude_le_of_not_isNaN {x : Binary64} (number : x.isNaN = false) :
    x.magnitude ≤ infinityMagnitude :=
  Nat.le_of_not_lt (of_decide_eq_false number)

/-- What is neither NaN nor finite is an infinity. -/
theorem magnitude_of_infinite {x : Binary64} (number : x.isNaN = false)
    (infinite : ¬x.isFinite = true) : x.magnitude = infinityMagnitude := by
  have above := Nat.le_of_not_lt fun finite => infinite (decide_eq_true finite)
  exact Nat.le_antisymm (magnitude_le_of_not_isNaN number) above

/-- The NaN that stands for all of them.  It is quiet. -/
def nan : Binary64 := ⟨0x7ff8000000000000⟩

/-- The positive zero. -/
def zero : Binary64 := ⟨0⟩

/-! ## Comparison -/

/-- The place of a number on the line, in units of patterns.  Both zeros are at `0`. -/
def position (x : Binary64) : Int :=
  if x.isNegative then -(x.magnitude : Int) else x.magnitude

/-- The IEEE order: no NaN is below or above anything. -/
def lt (x y : Binary64) : Bool :=
  !x.isNaN && !y.isNaN && decide (x.position < y.position)

/-- The IEEE equality: a NaN is unequal to itself and the zeros are equal. -/
def ieeeEq (x y : Binary64) : Bool :=
  !x.isNaN && !y.isNaN && decide (x.position = y.position)

/-- Equality up to the choice of NaN: the same pattern, or two NaNs.  The zeros differ. -/
def same (x y : Binary64) : Bool :=
  (x.isNaN && y.isNaN) || decide (x.bits = y.bits)

/-- Every NaN becomes `nan`, and any other number stays as it is. -/
def canonical (x : Binary64) : Binary64 := if x.isNaN then nan else x

/-! ## Arithmetic -/

/-- The number as a `Float`, which has one NaN. -/
def toFloat (x : Binary64) : Float := Float.ofBits x.canonical.bits

/-- The pattern of a `Float`. -/
def ofFloat (x : Float) : Binary64 := ⟨x.toBits⟩

/-- Sum, rounded to nearest. -/
def add (x y : Binary64) : Binary64 := ofFloat (x.toFloat + y.toFloat)

/-- Difference, rounded to nearest. -/
def sub (x y : Binary64) : Binary64 := ofFloat (x.toFloat - y.toFloat)

/-- Product, rounded to nearest. -/
def mul (x y : Binary64) : Binary64 := ofFloat (x.toFloat * y.toFloat)

/-- Quotient, rounded to nearest.  A nonzero number over zero is an infinity. -/
def div (x y : Binary64) : Binary64 := ofFloat (x.toFloat / y.toFloat)

/-- Power.  The base `1` and the exponent `0` give `1` even for a quiet NaN.  A
signaling NaN gives NaN whatever the other operand is. -/
def pow (x y : Binary64) : Binary64 :=
  if x.isSignaling || y.isSignaling then nan else ofFloat (Float.pow x.toFloat y.toFloat)

end Binary64

end Abacus
