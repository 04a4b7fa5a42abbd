import Abacus.Eval.Environment

/-!
# Contexts that watch and that fail

A `Journal` wraps any context and records every access in order.  A
`Rehearsal` is an environment with a planned failure: it can refuse a chosen
read, and it can answer for names that have no value.
-/

namespace Abacus

/-! ## Journals -/

/-- One access to a context. -/
inductive Access where
  /-- A read, with the value that it gave or nothing if it failed. -/
  | get (name : String) (value : Option Binary64)
  /-- A write. -/
  | set (name : String) (value : Binary64)
  deriving DecidableEq

/-- A context with the record of its accesses. -/
structure Journal (σ : Type) where
  /-- The context itself. -/
  inner : σ
  /-- The accesses so far, the latest first. -/
  latest : List Access

namespace Journal

/-- A context to which no access was made yet. -/
def start {σ : Type} (inner : σ) : Journal σ := ⟨inner, []⟩

/-- The accesses so far, in order. -/
def accesses {σ : Type} (journal : Journal σ) : List Access := journal.latest.reverse

instance {σ : Type} [Context σ] : Context (Journal σ) where
  read journal name :=
    let (answer, inner) := Context.read journal.inner name
    (answer, ⟨inner, .get name answer.toOption :: journal.latest⟩)
  write journal name value :=
    ⟨Context.write journal.inner name value, .set name value :: journal.latest⟩

end Journal

/-! ## Rehearsals -/

/-- An environment that can be told to fail. -/
structure Rehearsal where
  /-- The bindings. -/
  environment : Environment
  /-- The number of reads made so far. -/
  reads : Nat := 0
  /-- The number of the read to refuse, counted from zero, and the error it gives. -/
  refusal : Option (Nat × EvalError) := none
  /-- The value of a name that is not bound. -/
  fallback : Option Binary64 := none

namespace Rehearsal

/-- The answer to the next read. -/
def answer (r : Rehearsal) (name : String) : Except EvalError Binary64 :=
  match r.refusal.filter fun (turn, _) => turn == r.reads with
  | some (_, error) => .error error
  | none =>
    match r.environment.get? name <|> r.fallback with
    | some value => .ok value
    | none => .error (.undefinedVariable name)

instance : Context Rehearsal where
  read r name := (r.answer name, { r with reads := r.reads + 1 })
  write r name value := { r with environment := r.environment.set name value }

end Rehearsal

end Abacus
