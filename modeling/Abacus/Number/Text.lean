import Abacus.Number.Shortest

/-!
# Numbers as text

A finite number is written with the digits of its shortest decimal.  How they
are laid out is a `NumberStyle`: between two exponents positionally, with at
least one digit on each side of the point, and otherwise with an exponent mark
and no forced fraction.  A style also says which of two equally near decimals
is written, and whether a positive exponent has a sign.
-/

namespace Abacus

/-- How numbers are written. -/
structure NumberStyle where
  /-- The text of NaN. -/
  nan : String
  /-- The text of infinity. -/
  infinity : String
  /-- The least exponent of the leading digit that is written positionally. -/
  low : Int
  /-- The least exponent above `low` that is no longer written positionally. -/
  high : Int
  /-- Which of two equally near shortest decimals is written. -/
  tie : Tie
  /-- What stands in front of an exponent that is not negative. -/
  plus : String

/-- The digits of a natural number without trailing zeros. -/
def significantDigits (n : Nat) : List Char :=
  ((Nat.toDigits 10 n).reverse.dropWhile (· == '0')).reverse

/-- Positional text of digits whose first one counts `10 ^ e`. -/
def positional (digits : List Char) (e : Int) : List Char :=
  if e < 0 then
    '0' :: '.' :: (List.replicate (-e - 1).toNat '0' ++ digits)
  else
    let whole := e.toNat + 1
    let fraction := digits.drop whole
    digits.take whole ++ List.replicate (whole - digits.length) '0' ++
      '.' :: (if fraction.isEmpty then ['0'] else fraction)

/-- Text with an exponent mark of digits whose first one counts `10 ^ e`. -/
def scientific (plus : String) (digits : List Char) (e : Int) : List Char :=
  let fraction := digits.drop 1
  let sign := if e < 0 then "" else plus
  digits.take 1 ++ (if fraction.isEmpty then [] else '.' :: fraction) ++
    'e' :: (sign ++ toString e).toList

/-- The text of a positive decimal. -/
def Decimal.chars (style : NumberStyle) (d : Decimal) : List Char :=
  let digits := significantDigits d.coefficient
  let e := d.exponent + (Nat.toDigits 10 d.coefficient).length - 1
  if style.low ≤ e ∧ e < style.high then positional digits e
  else scientific style.plus digits e

/-- The text of the absolute value of a finite number. -/
def Binary64.finiteChars (style : NumberStyle) (x : Binary64) : List Char :=
  if x.magnitude = 0 then ['0', '.', '0'] else (x.shortest style.tie).chars style

/-- The text of a number.  Negative numbers, `-0.0` among them, begin with a
minus sign; NaN never does. -/
def Binary64.text (style : NumberStyle) (x : Binary64) : String :=
  if x.isNaN then style.nan
  else
    let size := if x.isFinite then String.ofList (x.finiteChars style) else style.infinity
    if x.isNegative then "-" ++ size else size

/-- The style of inspection texts and node attributes. -/
def NumberStyle.inspection : NumberStyle :=
  { nan := "NaN", infinity := "inf", low := -4, high := 16, tie := .up, plus := "" }

end Abacus
