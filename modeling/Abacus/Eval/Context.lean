import Abacus.Number.Binary64

/-!
# Contexts

An evaluation reads and writes variables through a *context*.  A read may fail,
and it may change the context, so that a context can count or record its reads.
A write always succeeds.
-/

namespace Abacus

/-- Why an evaluation stops early. -/
inductive EvalError where
  /-- A name was read that has no value. -/
  | undefinedVariable (name : String)
  deriving DecidableEq, Inhabited

/-- The wording of an error. -/
def EvalError.message : EvalError → String
  | .undefinedVariable name => "undefined variable: " ++ name

/-- What variables are read from and written to. -/
class Context (σ : Type) where
  /-- The value of a name or the reason why it has none, and the context after the read. -/
  read : σ → String → Except EvalError Binary64 × σ
  /-- The context after a name was given a value. -/
  write : σ → String → Binary64 → σ

end Abacus
