import Abacus.Tree.Basic

/-!
# Meaning of the operators

Evaluation rests on five operations and two orders, its *arithmetic*.  That of
the language is binary64, and it is the only instance.  What is proved of a run
over any arithmetic does not depend on how numbers are rounded.

Equality is not part of the arithmetic.  It is that of constants: NaN equals NaN
and the two zeros differ.
-/

namespace Abacus

/-- The operations and orders that evaluation rests on. -/
class Arithmetic where
  /-- The sum. -/
  add : Binary64 → Binary64 → Binary64
  /-- The difference. -/
  sub : Binary64 → Binary64 → Binary64
  /-- The product. -/
  mul : Binary64 → Binary64 → Binary64
  /-- The quotient. -/
  div : Binary64 → Binary64 → Binary64
  /-- The power. -/
  pow : Binary64 → Binary64 → Binary64
  /-- Whether the first number is below the second. -/
  lt : Binary64 → Binary64 → Bool
  /-- Whether the first number is above the second. -/
  gt : Binary64 → Binary64 → Bool

/-- The arithmetic of the language: binary64 operations and the IEEE orders. -/
instance Binary64.arithmetic : Arithmetic where
  add := Binary64.add
  sub := Binary64.sub
  mul := Binary64.mul
  div := Binary64.div
  pow := Binary64.pow
  lt := Binary64.lt
  gt x y := y.lt x

section

variable [Arithmetic]

/-- The value of an operation. -/
def Operator.apply : Operator → Binary64 → Binary64 → Binary64
  | .addition => Arithmetic.add
  | .subtraction => Arithmetic.sub
  | .multiplication => Arithmetic.mul
  | .division => Arithmetic.div
  | .exponentiation => Arithmetic.pow

/-- Whether a comparison holds. -/
def Comparison.holds : Comparison → Binary64 → Binary64 → Bool
  | .equals, x, y => x.same y
  | .lessThan, x, y => Arithmetic.lt x y
  | .greaterThan, x, y => Arithmetic.gt x y

end

end Abacus
