import Abacus.Number.Binary64

/-!
# Rounding to the nearest number

`nearestMagnitude n d` is the magnitude of the binary64 number nearest to the
ratio `n / d`, a tie going to the even magnitude.  The computation is exact: it
finds the power of two that the last bit of the result stands for, divides in
that unit, and rounds the quotient once.

Below `2 ^ 52` units the result is subnormal and its magnitude is the quotient
itself.  Above, the leading bit of the quotient is implicit, and adding the
quotient to the shifted exponent lets that bit, and a carry out of it, run into
the exponent field.  So one formula serves subnormal and normal numbers, and an
exponent that is too large ends at infinity.
-/

namespace Abacus

/-- The quotient `n / d` to the nearest natural number, a half going to the even neighbour. -/
def divNearestEven (n d : Nat) : Nat :=
  if 2 * (n % d) < d then n / d
  else if d < 2 * (n % d) then n / d + 1
  else n / d + n / d % 2

/-- The largest `e` with `2 ^ e ≤ n / d`, for positive `n` and `d`. -/
def ratioLog2 (n d : Nat) : Int :=
  let e : Int := (n.log2 : Int) - d.log2
  if d * Nat.pow 2 e.toNat ≤ n * Nat.pow 2 (-e).toNat then e else e - 1

namespace Binary64

/-- The exponent of the last bit of a number whose leading bit stands for `2 ^ e`. -/
def unitExponent (e : Int) : Int := max (e - 52) (-1074)

/-- The magnitude of the number nearest to `n / d`. -/
def nearestMagnitude (n d : Nat) : Nat :=
  if n = 0 then 0
  else
    let q := unitExponent (ratioLog2 n d)
    let units := divNearestEven (n * Nat.pow 2 (-q).toNat) (d * Nat.pow 2 q.toNat)
    min ((q + 1074).toNat * exponentBit + units) infinityMagnitude

/-- The number nearest to `n / d`, with the given sign. -/
def ofRatio (negative : Bool) (n d : Nat) : Binary64 :=
  ofMagnitude negative (nearestMagnitude n d)

/-- The number nearest to an integer. -/
def ofInt (i : Int) : Binary64 := ofRatio (decide (i < 0)) i.natAbs 1

end Binary64

end Abacus
