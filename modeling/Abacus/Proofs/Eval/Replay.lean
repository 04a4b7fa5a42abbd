import Abacus.Proofs.Eval.Dialogue

/-!
# A run can be read off its events

The events of a run tell which values were assigned and which branches were taken.
That is everything there is to know about it.  Binding the assigned values in order
gives the final environment.  And walking the statement by its events, which name
the branch at every conditional, leads along the run: each assignment and each
conditional on the way has its event, and no event is left over.  A run that fails
has no events beyond the failure, so there the walk stops at the statement that
failed (`Stmt.retrace`).

All of this is proved from one description of runs, `Runs`, with one case for each
way in which the first of some statements can run.
-/

namespace Abacus

/-! ## Walking by events -/

/-- The values that are assigned, in order. -/
def Event.assigned : List Event → List (String × Binary64)
  | [] => []
  | .assign name value :: later => (name, value) :: assigned later
  | .conditional _ _ _ _ :: later => assigned later

/-- Where a walk by events ends. -/
inductive Retrace where
  /-- Behind the last statement, with these events left over. -/
  | finished (left : List Event)
  /-- In front of a statement that has no event any more. -/
  | exhausted (stmt : Stmt)
  /-- In front of a statement of which the next event does not tell. -/
  | astray (stmt : Stmt) (event : Event)

/-- Walks on if the end was reached. -/
def Retrace.andThen : Retrace → (List Event → Retrace) → Retrace
  | .finished left, next => next left
  | .exhausted stmt, _ => .exhausted stmt
  | .astray stmt event, _ => .astray stmt event

mutual

/-- Walks a statement by events.  An assignment and a conditional take the next event,
which has to be of their own name or operator, and the event of a conditional says
which branch comes next. -/
def Stmt.retrace : Stmt → List Event → Retrace
  | .assign x e, [] => .exhausted (.assign x e)
  | .assign x e, event :: later =>
    match event with
    | .assign name _ => if name = x.name then .finished later else .astray (.assign x e) event
    | .conditional .. => .astray (.assign x e) event
  | .block ss, log => Stmt.retraceList ss log
  | .conditional op l r t f, [] => .exhausted (.conditional op l r t f)
  | .conditional op l r t f, event :: later =>
    match event with
    | .conditional compared _ _ holds =>
      if compared = op then if holds then t.retrace later else Stmt.retraceOption f later
      else .astray (.conditional op l r t f) event
    | .assign .. => .astray (.conditional op l r t f) event

/-- Walks statements one after the other by events. -/
def Stmt.retraceList : List Stmt → List Event → Retrace
  | [], log => .finished log
  | s :: ss, log => (s.retrace log).andThen (Stmt.retraceList ss)

/-- Walks a statement that may be absent by events. -/
def Stmt.retraceOption : Option Stmt → List Event → Retrace
  | none, log => .finished log
  | some s, log => s.retrace log

end

theorem Retrace.andThen_assoc (walk : Retrace) (next more : List Event → Retrace) :
    (walk.andThen next).andThen more = walk.andThen fun left => (next left).andThen more := by
  cases walk <;> rfl

theorem Retrace.andThen_finished (walk : Retrace) : walk.andThen .finished = walk := by
  cases walk <;> rfl

theorem Stmt.retraceList_append (ss ts : List Stmt) (log : List Event) :
    Stmt.retraceList (ss ++ ts) log = (Stmt.retraceList ss log).andThen (Stmt.retraceList ts) := by
  induction ss generalizing log with
  | nil =>
    rw [Stmt.retraceList]
    rfl
  | cons s ss ih =>
    rw [List.cons_append, Stmt.retraceList, Stmt.retraceList, Retrace.andThen_assoc]
    exact congrArg (Retrace.andThen _) (funext ih)

theorem Stmt.retraceList_singleton (s : Stmt) (log : List Event) :
    Stmt.retraceList [s] log = s.retrace log := by
  have rest : Stmt.retraceList [] = .finished := rfl
  rw [Stmt.retraceList, rest, Retrace.andThen_finished]

theorem Stmt.retraceList_assign (x : Variable) (e : Expr) (v : Binary64) (rest : List Stmt)
    (log : List Event) :
    Stmt.retraceList (.assign x e :: rest) (.assign x.name v :: log) =
      Stmt.retraceList rest log := by
  rw [Stmt.retraceList, Stmt.retrace, if_pos rfl]
  rfl

theorem Stmt.retraceList_block (ss rest : List Stmt) (log : List Event) :
    Stmt.retraceList (.block ss :: rest) log = Stmt.retraceList (ss ++ rest) log := by
  rw [Stmt.retraceList, Stmt.retrace, Stmt.retraceList_append]

theorem Stmt.retraceList_conditional (op : Comparison) (l r : Expr) (t : Stmt) (f : Option Stmt)
    (a b : Binary64) (holds : Bool) (rest : List Stmt) (log : List Event) :
    Stmt.retraceList (.conditional op l r t f :: rest) (.conditional op a b holds :: log) =
      Stmt.retraceList (selected holds t f ++ rest) log := by
  have branch : Stmt.retraceList (selected holds t f) log =
      if holds then t.retrace log else Stmt.retraceOption f log := by
    cases holds with
    | true => exact t.retraceList_singleton log
    | false =>
      cases f with
      | none => rfl
      | some f => exact f.retraceList_singleton log
  rw [Stmt.retraceList, Stmt.retrace, if_pos rfl, ← branch, Stmt.retraceList_append]

section

variable [Arithmetic]

/-! ## How statements run -/

/-- Reads leave an environment as it is. -/
theorem Expr.evaluate_environment (e : Expr) (env : Environment) :
    e.evaluate env = ((e.evaluate env).1, env) := by
  induction e with
  | const c => rw [Expr.evaluate_const]
  | var v =>
    rw [Expr.evaluate_var]
    cases bound : env.get? v.name with
    | none => rw [Environment.read_of_none bound]
    | some x => rw [Environment.read_of_some bound]
  | binary op l r ihl ihr =>
    rw [Expr.evaluate_binary, ihl]
    cases (l.evaluate env).1 with
    | error err => rfl
    | ok x =>
      simp only
      rw [ihr]
      cases (r.evaluate env).1 with
      | error err => rfl
      | ok y => rfl

/-- How a list of statements runs on an environment, by what its first statement does. -/
inductive Runs : List Stmt → Environment → Outcome Environment → Prop where
  | done {env : Environment} : Runs [] env ⟨.ok (), env, []⟩
  | assign {x : Variable} {e : Expr} {rest : List Stmt} {env : Environment} {v : Binary64}
    {o : Outcome Environment} : e.evaluate env = (.ok v, env) → Runs rest (env.set x.name v) o →
    Runs (.assign x e :: rest) env (o.after [.assign x.name v])
  | block {ss rest : List Stmt} {env : Environment} {o : Outcome Environment} :
    Runs (ss ++ rest) env o → Runs (.block ss :: rest) env o
  | conditional {op : Comparison} {l r : Expr} {t : Stmt} {f : Option Stmt} {rest : List Stmt}
    {env : Environment} {a b : Binary64} {o : Outcome Environment} :
    l.evaluate env = (.ok a, env) → r.evaluate env = (.ok b, env) →
    Runs (selected (op.holds a b) t f ++ rest) env o →
    Runs (.conditional op l r t f :: rest) env (o.after [.conditional op a b (op.holds a b)])
  /-- An operand of the first statement has no value. -/
  | failed {stmt : Stmt} {rest : List Stmt} {env : Environment} {err : EvalError} :
    (∀ ss, stmt ≠ .block ss) → stmt.run env = ⟨.error err, env, []⟩ →
    Runs (stmt :: rest) env ⟨.error err, env, []⟩

/-- An assignment without a value, or a conditional without one of its operands, ends a run. -/
theorem Runs.of_failure {stmt : Stmt} {rest : List Stmt} {env : Environment} {err : EvalError}
    (unblocked : ∀ ss, stmt ≠ .block ss) (failure : stmt.run env = ⟨.error err, env, []⟩) :
    Runs (stmt :: rest) env (runAll (stmt :: rest) env) := by
  rw [runAll_cons, failure]
  exact .failed unblocked failure

theorem runs_runAll (ss : List Stmt) (env : Environment) : Runs ss env (runAll ss env) := by
  induction size : Stmt.sizeList ss using Nat.strongRecOn generalizing ss env with
  | ind k ih =>
    subst size
    match ss with
    | [] =>
      rw [runAll_nil]
      exact .done
    | .assign x e :: rest =>
      have value := e.evaluate_environment env
      have run := Stmt.run_assign x e env
      cases found : (e.evaluate env).1 with
      | error err =>
        rw [value, found] at run
        exact .of_failure nofun run
      | ok v =>
        rw [value, found] at run
        rw [runAll_cons, run]
        rw [found] at value
        exact .assign value (ih _ (sizeList_rest_lt x e rest) rest _ rfl)
    | .block body :: rest =>
      rw [runAll_cons, Stmt.run_block, ← runAll_append]
      exact .block (ih _ (sizeList_block_lt body rest) _ env rfl)
    | .conditional op l r t f :: rest =>
      have left := l.evaluate_environment env
      have right := r.evaluate_environment env
      have run := Stmt.run_conditional op l r t f env
      cases first : (l.evaluate env).1 with
      | error err =>
        rw [left, first] at run
        exact .of_failure nofun run
      | ok a =>
        rw [left, first] at run
        cases second : (r.evaluate env).1 with
        | error err =>
          simp only at run
          rw [right, second] at run
          exact .of_failure nofun run
        | ok b =>
          simp only at run
          rw [right, second] at run
          rw [first] at left
          rw [second] at right
          rw [runAll_cons, run, Outcome.andThen_after, ← runAll_append]
          exact .conditional left right
            (ih _ (sizeList_selected_lt (op.holds a b) op l r t f rest) _ env rfl)

/-! ## What the events tell -/

namespace Runs

variable {ss : List Stmt} {env : Environment} {o : Outcome Environment}

/-- The final environment has the assigned values. -/
theorem state_eq (run : Runs ss env o) : o.state = env.setAll (Event.assigned o.events) := by
  induction run with
  | done => rfl
  | assign value later ih => exact ih
  | block inner ih => exact ih
  | conditional left right later ih => exact ih
  | failed unblocked failure => rfl

/-- What a conditional tells of its operands is true. -/
theorem holds_eq (run : Runs ss env o) {op : Comparison} {a b : Binary64} {holds : Bool}
    (told : .conditional op a b holds ∈ o.events) : holds = op.holds a b := by
  induction run with
  | done => cases told
  | assign value later ih =>
    cases told with
    | tail _ told => exact ih told
  | block inner ih => exact ih told
  | conditional left right later ih =>
    cases told with
    | head => rfl
    | tail _ told => exact ih told
  | failed unblocked failure => cases told

/-- The events lead along the run, to its end or to the statement that failed. -/
theorem retrace_eq (run : Runs ss env o) :
    match o.result with
    | .ok () => Stmt.retraceList ss o.events = .finished []
    | .error err => ∃ stmt, Stmt.retraceList ss o.events = .exhausted stmt ∧
        stmt.run o.state = ⟨.error err, o.state, []⟩ := by
  induction run with
  | done => rfl
  | @assign x e rest env v o value later ih =>
    rw [← Stmt.retraceList_assign x e v] at ih
    exact ih
  | block inner ih =>
    rw [← Stmt.retraceList_block] at ih
    exact ih
  | @conditional op l r t f rest env a b o left right later ih =>
    rw [← Stmt.retraceList_conditional op l r t f a b] at ih
    exact ih
  | @failed stmt rest env err unblocked failure =>
    refine ⟨stmt, ?_, failure⟩
    cases stmt with
    | assign x e => rfl
    | block ss => exact absurd rfl (unblocked ss)
    | conditional op l r t f => rfl

end Runs

end

/-- The events of a run tell all of it: the final environment has the assigned values in
order, every comparison holds or not as it is told, and the statement can be walked by
the events, which are used up at its end or in front of the statement that failed. -/
theorem run_retraced (s : Stmt) (env : Environment) :
    (s.run env).state = env.setAll (Event.assigned (s.run env).events) ∧
    (∀ op a b holds, .conditional op a b holds ∈ (s.run env).events → holds = op.holds a b) ∧
    match (s.run env).result with
    | .ok () => s.retrace (s.run env).events = .finished []
    | .error err => ∃ stmt, s.retrace (s.run env).events = .exhausted stmt ∧
        stmt.run (s.run env).state = ⟨.error err, (s.run env).state, []⟩ := by
  have run : Runs [s] env (s.run env) := runs_runAll [s] env
  have walk := run.retrace_eq
  rw [s.retraceList_singleton] at walk
  exact ⟨run.state_eq, fun op a b holds told => run.holds_eq told, walk⟩

/-- A run that fails in the second statement of a branch. -/
theorem run_retraced_failedBranch :
    let failing : Stmt := .assign ⟨"y"⟩ (.var ⟨"missing"⟩)
    let s : Stmt := .block [.assign ⟨"x"⟩ (.var ⟨"y"⟩),
      .conditional .equals (.var ⟨"x"⟩) (.var ⟨"z"⟩) (.assign ⟨"z"⟩ (.var ⟨"x"⟩))
        (some (.block [.assign ⟨"x"⟩ (.var ⟨"z"⟩), failing, .assign ⟨"z"⟩ (.var ⟨"y"⟩)])),
      .assign ⟨"y"⟩ (.var ⟨"x"⟩)]
    let env := (Environment.empty.set "y" ⟨1⟩).set "z" ⟨2⟩
    let events : List Event :=
      [.assign "x" ⟨1⟩, .conditional .equals ⟨1⟩ ⟨2⟩ false, .assign "x" ⟨2⟩]
    (s.run env).events = events ∧
      (s.run env).state = (env.set "x" ⟨1⟩).set "x" ⟨2⟩ ∧
      Comparison.holds .equals ⟨1⟩ ⟨2⟩ = false ∧
      s.retrace events = .exhausted failing ∧
      failing.run (s.run env).state =
        ⟨.error (.undefinedVariable "missing"), (s.run env).state, []⟩ := by
  intro failing s env events
  have different : Binary64.same ⟨1⟩ ⟨2⟩ = false := by decide
  have outcome : (s.run env).events = events ∧
      (s.run env).result = .error (.undefinedVariable "missing") := by
    rw [s.run_eq_hold]
    simp [s, failing, env, events, Stmt.dialogue, Stmt.dialogueList, Stmt.dialogueOption,
      Expr.dialogue, Dialogue.bind, Dialogue.hold, Held.outcome, Context.read, Context.write,
      Environment.get?_set, Comparison.holds, different]
  have walk : s.retrace events = .exhausted failing := rfl
  obtain ⟨state, told, stopped⟩ := run_retraced s env
  rw [outcome.1] at state told
  rw [outcome.1, outcome.2, walk] at stopped
  obtain ⟨stmt, same, failure⟩ := stopped
  cases same
  exact ⟨outcome.1, state, (told .equals ⟨1⟩ ⟨2⟩ false (by simp [events])).symm, walk, failure⟩

end Abacus
