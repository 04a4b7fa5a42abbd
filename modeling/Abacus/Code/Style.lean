import Abacus.Number.Text
import Abacus.Tree.Basic

/-!
# Style of generated code

What may be chosen about generated code: the indentation of blocks, and the
token for the comparison of equality.  Four spaces and a single `=` are the
default.
-/

namespace Abacus

/-- The token that a comparison of equality is written with. -/
inductive EqualsToken where
  /-- A single `=`. -/
  | legacy
  /-- A double `==`. -/
  | equality
  deriving DecidableEq, Inhabited

/-- The text of the token. -/
def EqualsToken.text : EqualsToken → String
  | .legacy => "="
  | .equality => "=="

/-- The name of the token in inspection texts. -/
def EqualsToken.label : EqualsToken → String
  | .legacy => "Legacy"
  | .equality => "Equality"

/-- How code is written. -/
structure CodeStyle where
  /-- The pad of each line of a block. -/
  indent : String := "    "
  /-- The token for equality. -/
  equals : EqualsToken := .legacy
  deriving DecidableEq, Inhabited

/-- Numbers in code: the special values are the names that `math.h` gives them. -/
def NumberStyle.code : NumberStyle :=
  { nan := "NAN", infinity := "INFINITY", low := -4, high := 16, tie := .up, plus := "" }

/-- The token of a comparison. -/
def CodeStyle.token (style : CodeStyle) : Comparison → String
  | .equals => style.equals.text
  | .lessThan => "<"
  | .greaterThan => ">"

/-- What stands before, between and after the operands of an operation.  An
operation with a token is put in parentheses; the power is a call. -/
def Operator.code : Operator → String × String × String
  | .addition => ("(", " + ", ")")
  | .subtraction => ("(", " - ", ")")
  | .multiplication => ("(", " * ", ")")
  | .division => ("(", " / ", ")")
  | .exponentiation => ("pow(", ", ", ")")

end Abacus
