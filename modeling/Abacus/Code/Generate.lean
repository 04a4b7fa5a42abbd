import Abacus.Code.Style
import Abacus.Layout.Script
import Abacus.Tree.Node

/-!
# Code generation

A statement becomes a statement of a language of the C family.  A block that is
not empty opens a layer of indentation for its body, and a conditional always
has an else part.  Names are written as they are.

The script of a tree is produced from a list of tasks: steps that are ready,
and expressions and statements that are still to be unfolded into tasks.  Each
statement is a part of the script, marked with its kind.
-/

namespace Abacus

/-- Something to be written. -/
inductive CodeTask where
  /-- A step of the script. -/
  | step (s : Step)
  /-- The code of an expression. -/
  | expr (e : Expr)
  /-- The code of a statement. -/
  | stmt (s : Stmt)

/-- A text to be written. -/
def CodeTask.text (t : String) : CodeTask := .step (.write t)

/-- The code of an expression, up to the code of its operands. -/
def Expr.codeTasks : Expr → List CodeTask
  | .const c => [.text (c.value.text .code)]
  | .var v => [.text v.name]
  | .binary op l r =>
    let (before, between, after) := op.code
    [.text before, .expr l, .text between, .expr r, .text after]

/-- The code of a statement, up to the code of its parts. -/
def Stmt.codeTasks (style : CodeStyle) : Stmt → List CodeTask
  | .assign x e => [.text x.name, .text " = ", .expr e, .text ";"]
  | .block [] => [.text "\x7b\x7d"]
  | .block (s :: ss) =>
    [.text "\x7b\n", .step (.indent style.indent)] ++
      (s :: ss).flatMap (fun s => [.stmt s, .text "\n"]) ++
      [.step .dedent, .text "\x7d"]
  | .conditional op l r t f =>
    [.text "if (", .expr l, .text (" " ++ style.token op ++ " "), .expr r, .text ") ", .stmt t] ++
      match f with
      | some f => [.text " else ", .stmt f]
      | none => [.text " else \x7b\x7d"]

/-! ## The script -/

/-- A bound on the tasks that a task unfolds into. -/
def CodeTask.cost : CodeTask → Nat
  | .step _ => 1
  | .expr e => 6 * e.size
  | .stmt s => 8 * s.size - 1

/-- A bound on the tasks that a list of tasks unfolds into. -/
def CodeTask.totalCost (tasks : List CodeTask) : Nat := total CodeTask.cost tasks

@[simp] theorem CodeTask.cost_step (s : Step) : (CodeTask.step s).cost = 1 := rfl

@[simp] theorem CodeTask.cost_text (t : String) : (CodeTask.text t).cost = 1 := rfl

@[simp] theorem CodeTask.cost_expr (e : Expr) : (CodeTask.expr e).cost = 6 * e.size := rfl

@[simp] theorem CodeTask.cost_stmt (s : Stmt) : (CodeTask.stmt s).cost = 8 * s.size - 1 := rfl

@[simp] theorem CodeTask.totalCost_nil : CodeTask.totalCost [] = 0 := rfl

@[simp] theorem CodeTask.totalCost_cons (t : CodeTask) (ts : List CodeTask) :
    CodeTask.totalCost (t :: ts) = t.cost + CodeTask.totalCost ts := by
  simp [CodeTask.totalCost]

@[simp] theorem CodeTask.totalCost_append (ss ts : List CodeTask) :
    CodeTask.totalCost (ss ++ ts) = CodeTask.totalCost ss + CodeTask.totalCost ts := by
  simp [CodeTask.totalCost]

theorem Stmt.size_pos (s : Stmt) : 0 < s.size := by
  cases s <;> simp only [Stmt.size] <;> omega

theorem totalCost_body (ss : List Stmt) :
    CodeTask.totalCost (ss.flatMap fun s => [.stmt s, .text "\n"]) = 8 * Stmt.sizeList ss := by
  induction ss with
  | nil => rfl
  | cons s ss ih =>
    have := s.size_pos
    rw [List.flatMap_cons, CodeTask.totalCost_append, ih]
    simp only [CodeTask.totalCost_cons, CodeTask.totalCost_nil, CodeTask.cost_stmt,
      CodeTask.cost_text, Stmt.sizeList]
    omega

theorem Expr.totalCost_codeTasks (e : Expr) : CodeTask.totalCost e.codeTasks < 6 * e.size := by
  cases e with
  | const c => simp [codeTasks, Expr.size]
  | var v => simp [codeTasks, Expr.size]
  | binary op l r =>
    simp only [codeTasks, CodeTask.totalCost_cons, CodeTask.totalCost_nil, CodeTask.cost_expr,
      CodeTask.cost_text, Expr.size]
    omega

theorem Stmt.totalCost_codeTasks (style : CodeStyle) (s : Stmt) :
    CodeTask.totalCost (s.codeTasks style) + 2 < 8 * s.size - 1 := by
  match s with
  | .assign x e =>
    simp only [codeTasks, CodeTask.totalCost_cons, CodeTask.totalCost_nil, CodeTask.cost_expr,
      CodeTask.cost_text, Stmt.size]
    omega
  | .block [] =>
    simp only [codeTasks, CodeTask.totalCost_cons, CodeTask.totalCost_nil, CodeTask.cost_text,
      Stmt.size]
    omega
  | .block (s :: ss) =>
    simp only [codeTasks, CodeTask.totalCost_append, totalCost_body, CodeTask.totalCost_cons,
      CodeTask.totalCost_nil, CodeTask.cost_step, CodeTask.cost_text, Stmt.size]
    omega
  | .conditional op l r t none =>
    have := t.size_pos
    simp only [codeTasks, CodeTask.totalCost_append, CodeTask.totalCost_cons,
      CodeTask.totalCost_nil, CodeTask.cost_expr, CodeTask.cost_stmt, CodeTask.cost_text,
      Stmt.size, Stmt.sizeOption]
    omega
  | .conditional op l r t (some f) =>
    have := t.size_pos
    have := f.size_pos
    simp only [codeTasks, CodeTask.totalCost_append, CodeTask.totalCost_cons,
      CodeTask.totalCost_nil, CodeTask.cost_expr, CodeTask.cost_stmt, CodeTask.cost_text,
      Stmt.size, Stmt.sizeOption]
    omega

/-- Unfolds tasks into a script.  The steps so far come last first. -/
def codeScriptFrom (style : CodeStyle) : List CodeTask → List Step → Script
  | [], done => done.reverse
  | .step s :: rest, done => codeScriptFrom style rest (s :: done)
  | .expr e :: rest, done => codeScriptFrom style (e.codeTasks ++ rest) done
  | .stmt s :: rest, done =>
    codeScriptFrom style (s.codeTasks style ++ .step .leave :: rest)
      (.enter (Node.stmt s).kind :: done)
termination_by tasks => CodeTask.totalCost tasks
decreasing_by
  · simp
  · have := e.totalCost_codeTasks
    simp
    omega
  · have := s.totalCost_codeTasks style
    simp
    omega

/-- The script that writes the code of an expression. -/
def Expr.codeScript (style : CodeStyle) (e : Expr) : Script := codeScriptFrom style [.expr e] []

/-- The script that writes the code of a statement. -/
def Stmt.codeScript (style : CodeStyle) (s : Stmt) : Script := codeScriptFrom style [.stmt s] []

/-! ## The recursive reading -/

/-- The script of a single task. -/
def CodeTask.script (style : CodeStyle) : CodeTask → Script
  | .step s => [s]
  | .expr e => e.codeScript style
  | .stmt s => s.codeScript style

/-- Tasks are unfolded one after the other, after the steps so far. -/
theorem codeScriptFrom_eq (style : CodeStyle) (tasks : List CodeTask) (done : List Step) :
    codeScriptFrom style tasks done = done.reverse ++ tasks.flatMap (CodeTask.script style) := by
  induction cost : CodeTask.totalCost tasks using Nat.strongRecOn generalizing tasks done with
  | ind k ih =>
    subst cost
    match tasks with
    | [] => simp [codeScriptFrom]
    | .step s :: rest =>
      rw [codeScriptFrom, ih _ (by simp) _ _ rfl]
      simp [CodeTask.script]
    | .expr e :: rest =>
      have smaller := e.totalCost_codeTasks
      rw [codeScriptFrom, ih _ (by simp; omega) _ _ rfl]
      simp only [List.flatMap_append, List.flatMap_cons, CodeTask.script, Expr.codeScript]
      rw [codeScriptFrom, ih _ (by simp; omega) _ _ rfl]
      simp
    | .stmt s :: rest =>
      have smaller := s.totalCost_codeTasks style
      rw [codeScriptFrom, ih _ (by simp; omega) _ _ rfl]
      simp only [List.flatMap_append, List.flatMap_cons, CodeTask.script, Stmt.codeScript]
      rw [codeScriptFrom, ih _ (by simp; omega) _ _ rfl]
      simp [CodeTask.script]

/-- The script of an expression is that of its tasks. -/
theorem Expr.codeScript_eq (style : CodeStyle) (e : Expr) :
    e.codeScript style = e.codeTasks.flatMap (CodeTask.script style) := by
  rw [Expr.codeScript, codeScriptFrom, codeScriptFrom_eq]
  simp

/-- The script of a statement is that of its tasks, marked as one part. -/
theorem Stmt.codeScript_eq (style : CodeStyle) (s : Stmt) :
    s.codeScript style =
      .enter (Node.stmt s).kind :: (s.codeTasks style).flatMap (CodeTask.script style) ++
        [.leave] := by
  rw [Stmt.codeScript, codeScriptFrom, codeScriptFrom_eq]
  simp [CodeTask.script]

/-! ## Code -/

/-- The code of an expression. -/
def Expr.code (style : CodeStyle) (e : Expr) : String := (e.codeScript style).text

/-- The code of a statement.  A block ends at its closing brace. -/
def Stmt.code (style : CodeStyle) (s : Stmt) : String := (s.codeScript style).text

/-- Writes the code of an expression. -/
def Writer.writeExpr (w : Writer) (style : CodeStyle) (e : Expr) : Performance :=
  (e.codeScript style).perform w

/-- Writes the code of a statement. -/
def Writer.writeStmt (w : Writer) (style : CodeStyle) (s : Stmt) : Performance :=
  (s.codeScript style).perform w

end Abacus
