import Abacus.Eval.Context
import Abacus.Eval.Operator

/-!
# Evaluation of expressions

The operands of an operation are evaluated left before right, and the first
read that fails ends the evaluation.

Programs may be nested far deeper than a call stack, so evaluation is a loop
over two things: the *focus*, which is the expression to enter next or the
value just found, and the list of operations that wait for that value, the
innermost first.  `evaluate_binary` and its companions give the recursive
reading of the loop.
-/

namespace Abacus

/-- An operation that waits for the value of an operand. -/
inductive Pending where
  /-- The value will be the left operand.  The right one comes next. -/
  | right (operator : Operator) (rhs : Expr)
  /-- The value will be the right operand.  The left one is known. -/
  | combine (operator : Operator) (lhs : Binary64)

/-- Where an evaluation stands. -/
inductive Focus where
  /-- The expression to evaluate next. -/
  | enter (e : Expr)
  /-- The value just found. -/
  | value (x : Binary64)

/-- A bound on the steps that a waiting operation takes. -/
def Pending.cost : Pending → Nat
  | .right _ r => 3 * r.size + 2
  | .combine _ _ => 1

/-- A bound on the steps that a focus takes. -/
def Focus.cost : Focus → Nat
  | .enter e => 3 * e.size
  | .value _ => 0

section

variable {σ : Type} [Context σ] [Arithmetic]

/-- Evaluates the focus and then all waiting operations. -/
def evaluateFrom : Focus → List Pending → σ → Except EvalError Binary64 × σ
  | .enter (.const c), waiting, s => evaluateFrom (.value c.value) waiting s
  | .enter (.var v), waiting, s =>
    match Context.read s v.name with
    | (.ok x, s) => evaluateFrom (.value x) waiting s
    | (.error e, s) => (.error e, s)
  | .enter (.binary op l r), waiting, s => evaluateFrom (.enter l) (.right op r :: waiting) s
  | .value x, [], s => (.ok x, s)
  | .value x, .right op r :: waiting, s => evaluateFrom (.enter r) (.combine op x :: waiting) s
  | .value x, .combine op l :: waiting, s => evaluateFrom (.value (op.apply l x)) waiting s
termination_by focus waiting => focus.cost + total Pending.cost waiting
decreasing_by
  all_goals simp only [Focus.cost, Pending.cost, Expr.size, total_cons]
  all_goals omega

/-- The value of an expression, or the error of the first read that fails, and
the context after the reads. -/
def Expr.evaluate (e : Expr) (s : σ) : Except EvalError Binary64 × σ :=
  evaluateFrom (.enter e) [] s

/-- An expression is evaluated on its own before what waits for it. -/
theorem evaluateFrom_enter (e : Expr) (waiting : List Pending) (s : σ) :
    evaluateFrom (.enter e) waiting s =
      match e.evaluate s with
      | (.ok x, s) => evaluateFrom (.value x) waiting s
      | (.error err, s) => (.error err, s) := by
  induction e generalizing waiting s with
  | const c => simp [Expr.evaluate, evaluateFrom]
  | var v =>
    simp only [Expr.evaluate, evaluateFrom]
    cases h : Context.read s v.name with
    | mk answer s => cases answer <;> simp
  | binary op l r ihl ihr =>
    simp only [Expr.evaluate, evaluateFrom]
    rw [ihl, ihl [.right op r]]
    cases l.evaluate s with
    | mk left s =>
      cases left with
      | error err => rfl
      | ok x =>
        simp only [evaluateFrom]
        rw [ihr, ihr [.combine op x]]
        cases r.evaluate s with
        | mk right s => cases right <;> simp [evaluateFrom]

@[simp] theorem Expr.evaluate_const (c : Constant) (s : σ) :
    (Expr.const c).evaluate s = (.ok c.value, s) := by
  simp [Expr.evaluate, evaluateFrom]

@[simp] theorem Expr.evaluate_var (v : Variable) (s : σ) :
    (Expr.var v).evaluate s = Context.read s v.name := by
  simp only [Expr.evaluate, evaluateFrom]
  cases h : Context.read s v.name with
  | mk answer s => cases answer <;> simp

theorem Expr.evaluate_binary (op : Operator) (l r : Expr) (s : σ) :
    (Expr.binary op l r).evaluate s =
      match l.evaluate s with
      | (.error err, s) => (.error err, s)
      | (.ok x, s) =>
        match r.evaluate s with
        | (.error err, s) => (.error err, s)
        | (.ok y, s) => (.ok (op.apply x y), s) := by
  rw [Expr.evaluate, evaluateFrom, evaluateFrom_enter]
  cases l.evaluate s with
  | mk left s =>
    cases left with
    | error err => rfl
    | ok x =>
      simp only [evaluateFrom]
      rw [evaluateFrom_enter]
      cases r.evaluate s with
      | mk right s => cases right <;> simp [evaluateFrom]

end

end Abacus
