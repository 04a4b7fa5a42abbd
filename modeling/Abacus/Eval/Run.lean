import Abacus.Eval.Evaluate

/-!
# Running statements

A run goes through its statements in order.  An assignment evaluates its value
and then writes it.  A conditional evaluates both operands and runs at most one
branch.  The first error ends the run and leaves the context as it is then.

The statements still to run are kept in a list.  A block puts its statements in
front of that list, and a conditional its chosen branch, so nesting costs no
recursion depth.  `run_block` and its companions give the recursive reading.

A run also tells its *events*: each assignment once its value is known, and
each conditional once its operands are.
-/

namespace Abacus

/-- What a run tells about itself. -/
inductive Event where
  /-- A value was found for a variable and is about to be written. -/
  | assign (name : String) (value : Binary64)
  /-- Two values were compared and the branch is about to run. -/
  | conditional (operator : Comparison) (lhs rhs : Binary64) (holds : Bool)
  deriving DecidableEq

/-- How a run ended. -/
structure Outcome (σ : Type) where
  /-- Whether the run reached its end, and if not, why. -/
  result : Except EvalError Unit
  /-- The context after the run. -/
  state : σ
  /-- The events, in order. -/
  events : List Event

/-! ## Outcomes in sequence -/

/-- Goes on after a run if it reached its end. -/
def Outcome.andThen {σ : Type} (o : Outcome σ) (next : σ → Outcome σ) : Outcome σ :=
  match o.result with
  | .error _ => o
  | .ok () => ⟨(next o.state).result, (next o.state).state, o.events ++ (next o.state).events⟩

/-- The events told before a run come before its own, and change nothing else. -/
def Outcome.after {σ : Type} (told : List Event) (o : Outcome σ) : Outcome σ :=
  ⟨o.result, o.state, told ++ o.events⟩

theorem Outcome.after_after {σ : Type} (told more : List Event) (o : Outcome σ) :
    (o.after more).after told = o.after (told ++ more) := by
  simp [Outcome.after]

theorem Outcome.andThen_after {σ : Type} (told : List Event) (o : Outcome σ) (next : σ → Outcome σ) :
    (o.after told).andThen next = (o.andThen next).after told := by
  obtain ⟨result, state, events⟩ := o
  cases result <;> simp [Outcome.andThen, Outcome.after]

/-! ## The loop -/

/-- The statement that a conditional selects, if any. -/
def selected (holds : Bool) (ifTrue : Stmt) (ifFalse : Option Stmt) : List Stmt :=
  if holds then [ifTrue] else ifFalse.toList

theorem sizeList_rest_lt (x : Variable) (e : Expr) (rest : List Stmt) :
    Stmt.sizeList rest < Stmt.sizeList (.assign x e :: rest) := by
  simp only [Stmt.sizeList, Stmt.size]
  omega

theorem sizeList_block_lt (ss rest : List Stmt) :
    Stmt.sizeList (ss ++ rest) < Stmt.sizeList (.block ss :: rest) := by
  simp only [Stmt.sizeList, Stmt.size, Stmt.sizeList_append]
  omega

theorem sizeList_selected_lt (holds : Bool) (op : Comparison) (l r : Expr) (t : Stmt)
    (f : Option Stmt) (rest : List Stmt) :
    Stmt.sizeList (selected holds t f ++ rest) < Stmt.sizeList (.conditional op l r t f :: rest) := by
  have : Stmt.sizeList (selected holds t f) ≤ t.size + Stmt.sizeOption f := by
    cases holds <;> cases f <;> simp [selected, Stmt.sizeList, Stmt.sizeOption]
  simp only [Stmt.sizeList, Stmt.size, Stmt.sizeList_append]
  omega

section

variable {σ : Type} [Context σ] [Arithmetic]

/-- Runs statements one after the other.  The events told so far come last first. -/
def runFrom : List Stmt → σ → List Event → Outcome σ
  | [], s, told => ⟨.ok (), s, told.reverse⟩
  | .assign x e :: rest, s, told =>
    match e.evaluate s with
    | (.error err, s) => ⟨.error err, s, told.reverse⟩
    | (.ok v, s) => runFrom rest (Context.write s x.name v) (.assign x.name v :: told)
  | .block ss :: rest, s, told => runFrom (ss ++ rest) s told
  | .conditional op l r t f :: rest, s, told =>
    match l.evaluate s with
    | (.error err, s) => ⟨.error err, s, told.reverse⟩
    | (.ok x, s) =>
      match r.evaluate s with
      | (.error err, s) => ⟨.error err, s, told.reverse⟩
      | (.ok y, s) =>
        let holds := op.holds x y
        runFrom (selected holds t f ++ rest) s (.conditional op x y holds :: told)
termination_by agenda => Stmt.sizeList agenda
decreasing_by
  · exact sizeList_rest_lt x e rest
  · exact sizeList_block_lt ss rest
  · exact sizeList_selected_lt (op.holds x y) op l r t f rest

/-- Runs statements one after the other. -/
def runAll (ss : List Stmt) (s : σ) : Outcome σ := runFrom ss s []

/-- Runs a statement. -/
def Stmt.run (stmt : Stmt) (s : σ) : Outcome σ := runAll [stmt] s

/-! ## The recursive reading -/

theorem runFrom_told (ss : List Stmt) (s : σ) (told : List Event) :
    runFrom ss s told = (runAll ss s).after told.reverse := by
  induction size : Stmt.sizeList ss using Nat.strongRecOn generalizing ss s told with
  | ind k ih =>
    subst size
    match ss with
    | [] => simp [runAll, runFrom, Outcome.after]
    | .assign x e :: rest =>
      have smaller := sizeList_rest_lt x e rest
      simp only [runAll, runFrom]
      match e.evaluate s with
      | (.error err, s) => simp [Outcome.after]
      | (.ok v, s) =>
        simp only
        rw [ih _ smaller _ _ _ rfl, ih _ smaller _ _ [_] rfl, Outcome.after_after]
        simp
    | .block body :: rest =>
      have smaller := sizeList_block_lt body rest
      simp only [runAll, runFrom]
      rw [ih _ smaller _ _ _ rfl, runAll]
    | .conditional op l r t f :: rest =>
      simp only [runAll, runFrom]
      match l.evaluate s with
      | (.error err, s) => simp [Outcome.after]
      | (.ok x, s) =>
        simp only
        match r.evaluate s with
        | (.error err, s) => simp [Outcome.after]
        | (.ok y, s) =>
          have smaller := sizeList_selected_lt (op.holds x y) op l r t f rest
          simp only
          rw [ih _ smaller _ _ _ rfl, ih _ smaller _ _ [_] rfl, Outcome.after_after]
          simp

@[simp] theorem runAll_nil (s : σ) : runAll [] s = ⟨.ok (), s, []⟩ := by
  simp [runAll, runFrom]

/-- A list of statements runs in two parts. -/
theorem runAll_append (ss ts : List Stmt) (s : σ) :
    runAll (ss ++ ts) s = (runAll ss s).andThen (runAll ts) := by
  induction size : Stmt.sizeList ss using Nat.strongRecOn generalizing ss s with
  | ind k ih =>
    subst size
    match ss with
    | [] => simp [Outcome.andThen]
    | .assign x e :: rest =>
      have smaller := sizeList_rest_lt x e rest
      simp only [runAll, List.cons_append, runFrom]
      match e.evaluate s with
      | (.error err, s) => simp [Outcome.andThen]
      | (.ok v, s) =>
        simp only
        rw [runFrom_told, runFrom_told, ih _ smaller _ _ rfl, Outcome.andThen_after]
    | .block body :: rest =>
      have smaller := sizeList_block_lt body rest
      simp only [runAll, List.cons_append, runFrom]
      rw [← List.append_assoc]
      exact ih _ smaller _ _ rfl
    | .conditional op l r t f :: rest =>
      simp only [runAll, List.cons_append, runFrom]
      match l.evaluate s with
      | (.error err, s) => simp [Outcome.andThen]
      | (.ok x, s) =>
        simp only
        match r.evaluate s with
        | (.error err, s) => simp [Outcome.andThen]
        | (.ok y, s) =>
          have smaller := sizeList_selected_lt (op.holds x y) op l r t f rest
          simp only
          rw [runFrom_told, runFrom_told, ← List.append_assoc, ih _ smaller _ _ rfl,
            Outcome.andThen_after]

theorem runAll_cons (stmt : Stmt) (ss : List Stmt) (s : σ) :
    runAll (stmt :: ss) s = (stmt.run s).andThen (runAll ss) :=
  runAll_append [stmt] ss s

@[simp] theorem Stmt.run_block (ss : List Stmt) (s : σ) : (Stmt.block ss).run s = runAll ss s := by
  simp [Stmt.run, runAll, runFrom]

theorem Stmt.run_assign (x : Variable) (e : Expr) (s : σ) :
    (Stmt.assign x e).run s =
      match e.evaluate s with
      | (.error err, s) => ⟨.error err, s, []⟩
      | (.ok v, s) => ⟨.ok (), Context.write s x.name v, [.assign x.name v]⟩ := by
  simp [Stmt.run, runAll, runFrom]

theorem Stmt.run_conditional (op : Comparison) (l r : Expr) (t : Stmt) (f : Option Stmt) (s : σ) :
    (Stmt.conditional op l r t f).run s =
      match l.evaluate s with
      | (.error err, s) => ⟨.error err, s, []⟩
      | (.ok x, s) =>
        match r.evaluate s with
        | (.error err, s) => ⟨.error err, s, []⟩
        | (.ok y, s) =>
          (runAll (selected (op.holds x y) t f) s).after [.conditional op x y (op.holds x y)] := by
  simp only [Stmt.run, runAll, runFrom]
  match l.evaluate s with
  | (.error err, s) => rfl
  | (.ok x, s) =>
    simp only
    match r.evaluate s with
    | (.error err, s) => rfl
    | (.ok y, s) =>
      simp only [List.append_nil]
      rw [runFrom_told]
      rfl

end

end Abacus
