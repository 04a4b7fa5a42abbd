import Abacus.Eval.Environment
import Abacus.Eval.Run
import Abacus.Proofs.Code.Reading

/-!
# Code means what the program means

Code that was read is executed directly.  Operands are evaluated left before
right, operators stand for the operations of the language, and a comparison gives
`1` or `0`, of which a condition takes the first as true.  Which comparisons hold is
left open.  A `test` decides them, and the branches that are taken are recorded.

The code of a statement takes the branches that the statement takes, up to the first
comparison that `test` decides differently from the language, and there it takes the
other branch.  When there is no such comparison, code and statement also end alike
(`Stmt.parallel_parsed`).  So with the comparisons of the language itself, a statement
and what its code is read as do the same from every context, with the same errors
(`Stmt.exec_parsed`).

Two differences have to be bridged.  A negative constant is a minus sign in front of
its absolute value, and the choice of a branch goes through a number.
-/

namespace Abacus

/-! ## Execution -/

/-- The number with the other sign. -/
def Binary64.neg (x : Binary64) : Binary64 := .ofMagnitude (!x.isNegative) x.magnitude

/-- Whether a condition takes a number as true. -/
def Binary64.isTrue (x : Binary64) : Bool := !x.ieeeEq .zero

/-- How an execution went: its end, and the branches that its conditionals took. -/
structure Course (σ : Type) where
  /-- Whether the end was reached, and if not, why. -/
  result : Except EvalError Unit
  /-- The context after the execution. -/
  state : σ
  /-- Whether each condition was true, in order. -/
  branches : List Bool

namespace Course

variable {σ : Type}

/-- Goes on after an execution if it reached its end. -/
def andThen (c : Course σ) (next : σ → Course σ) : Course σ :=
  match c.result with
  | .error _ => c
  | .ok () => ⟨(next c.state).result, (next c.state).state, c.branches ++ (next c.state).branches⟩

/-- An execution behind a condition. -/
def after (taken : Bool) (c : Course σ) : Course σ := ⟨c.result, c.state, taken :: c.branches⟩

/-- How the execution ended, and where. -/
def ending (c : Course σ) : Except EvalError Unit × σ := (c.result, c.state)

theorem branches_prefix_andThen (c : Course σ) (next : σ → Course σ) :
    c.branches <+: (c.andThen next).branches := by
  obtain ⟨result, state, branches⟩ := c
  cases result with
  | error err => exact List.prefix_rfl
  | ok done => exact List.prefix_append _ _

end Course

section

variable (test : Comparison → Binary64 → Binary64 → Bool)

/-- The value of two operands with an operator between them. -/
def Connective.apply : Connective → Binary64 → Binary64 → Binary64
  | .operation op, x, y => op.apply x y
  | .comparison op, x, y => .ofInt (if test op x y then 1 else 0)

variable {σ : Type} [Context σ]

/-- The value of an expression, or the error of the first read that fails. -/
def CodeExpr.value : CodeExpr → σ → Except EvalError Binary64 × σ
  | .number x, s => (.ok x, s)
  | .name n, s => Context.read s n
  | .negation e, s =>
    match e.value s with
    | (.error err, s) => (.error err, s)
    | (.ok x, s) => (.ok x.neg, s)
  | .binary op l r, s =>
    match l.value s with
    | (.error err, s) => (.error err, s)
    | (.ok x, s) =>
      match r.value s with
      | (.error err, s) => (.error err, s)
      | (.ok y, s) => (.ok (op.apply test x y), s)

mutual

/-- Executes a statement and records the branches. -/
def CodeStmt.follow : CodeStmt → σ → Course σ
  | .assign x e, s =>
    match e.value test s with
    | (.error err, s) => ⟨.error err, s, []⟩
    | (.ok v, s) => ⟨.ok (), Context.write s x v, []⟩
  | .block ss, s => CodeStmt.followAll ss s
  | .conditional c t f, s =>
    match c.value test s with
    | (.error err, s) => ⟨.error err, s, []⟩
    | (.ok x, s) => (if x.isTrue then t.follow s else CodeStmt.followOption f s).after x.isTrue

/-- Executes statements one after the other, up to the first error. -/
def CodeStmt.followAll : List CodeStmt → σ → Course σ
  | [], s => ⟨.ok (), s, []⟩
  | c :: cs, s => (c.follow s).andThen (CodeStmt.followAll cs)

/-- Executes an else part, if there is one. -/
def CodeStmt.followOption : Option CodeStmt → σ → Course σ
  | none, s => ⟨.ok (), s, []⟩
  | some c, s => c.follow s

end

end

/-- Executes a statement with the comparisons of the language. -/
def CodeStmt.exec {σ : Type} [Context σ] (c : CodeStmt) (s : σ) : Except EvalError Unit × σ :=
  (c.follow Comparison.holds s).ending

/-! ## Numbers -/

namespace Binary64

/-- What the code of a number is read as has that number as its value. -/
theorem value_parsed (test : Comparison → Binary64 → Binary64 → Bool) {σ : Type} [Context σ]
    (x : Binary64) (canonical : x.canonical = x) (s : σ) :
    x.parsed.value test s = (.ok x, s) := by
  obtain ⟨positive, size⟩ := ofMagnitude_false x.magnitude_lt
  have whole := x.ofMagnitude_magnitude
  unfold parsed
  split
  next nan =>
    rw [Binary64.canonical, if_pos nan] at canonical
    rw [CodeExpr.value, canonical]
  next =>
    split
    next negative =>
      have flipped : (ofMagnitude false x.magnitude).neg = x := by
        rw [neg, positive, size, Bool.not_false, ← negative, whole]
      simp only [CodeExpr.value, flipped]
    next nonnegative =>
      rw [Bool.not_eq_true] at nonnegative
      rw [nonnegative] at whole
      rw [CodeExpr.value, whole]

/-- The number of a comparison is true exactly if the comparison holds. -/
theorem isTrue_comparison (holds : Bool) : (ofInt (if holds then 1 else 0)).isTrue = holds := by
  cases holds <;> decide

end Binary64

/-- An expression has the value of what its code is read as.  There is no comparison in it. -/
theorem Expr.value_parsed (test : Comparison → Binary64 → Binary64 → Bool) {σ : Type} [Context σ]
    (e : Expr) (s : σ) : e.parsed.value test s = e.evaluate s := by
  induction e generalizing s with
  | const c => rw [Expr.parsed, c.value.value_parsed test c.isCanonical, Expr.evaluate_const]
  | var v => rw [Expr.parsed, CodeExpr.value, Expr.evaluate_var]
  | binary op l r ihl ihr =>
    simp only [Expr.parsed, CodeExpr.value, Expr.evaluate_binary, ihl, ihr]
    rfl

/-! ## Along a run -/

section

variable (test : Comparison → Binary64 → Binary64 → Bool) {σ : Type}

/-- The branches that are told, in order. -/
def Event.branches : List Event → List Bool
  | [] => []
  | .assign _ _ :: later => branches later
  | .conditional _ _ _ holds :: later => holds :: branches later

theorem Event.branches_append (events more : List Event) :
    Event.branches (events ++ more) = Event.branches events ++ Event.branches more := by
  induction events with
  | nil => rfl
  | cons event events ih =>
    cases event with
    | assign name value => exact ih
    | conditional op x y holds => exact congrArg (holds :: ·) ih

/-- Whether `test` decides the comparison of an event as the language does. -/
def Event.Passes : Event → Prop
  | .assign _ _ => True
  | .conditional op x y _ => test op x y = op.holds x y

/-- What a run has in common with an execution that records its branches. -/
def Outcome.course (o : Outcome σ) : Course σ := ⟨o.result, o.state, Event.branches o.events⟩

/-- An execution goes along with a run, to the end or up to a comparison that `test` decides
differently, where it takes the other branch. -/
inductive Parallel (o : Outcome σ) (c : Course σ) : Prop where
  | together (pass : ∀ event ∈ o.events, event.Passes test) (same : c = o.course)
  | apart (before later : List Event) (op : Comparison) (x y : Binary64)
    (events : o.events = before ++ .conditional op x y (op.holds x y) :: later)
    (pass : ∀ event ∈ before, event.Passes test) (differs : test op x y ≠ op.holds x y)
    (branches : Event.branches before ++ [test op x y] <+: c.branches)

namespace Parallel

variable {test} {o : Outcome σ} {c : Course σ}

theorem silent (result : Except EvalError Unit) (s : σ) :
    Parallel test ⟨result, s, []⟩ ⟨result, s, []⟩ :=
  .together nofun rfl

theorem andThen (first : Parallel test o c) {more : σ → Outcome σ} {further : σ → Course σ}
    (next : ∀ s, Parallel test (more s) (further s)) :
    Parallel test (o.andThen more) (c.andThen further) := by
  obtain ⟨result, s, events⟩ := o
  cases first with
  | together pass same =>
    subst same
    cases result with
    | error err => exact .together pass rfl
    | ok done =>
      cases next s with
      | together pass' same =>
        refine .together (List.forall_mem_append.mpr ⟨pass, pass'⟩) ?_
        simp [Course.andThen, Outcome.andThen, Outcome.course, same, Event.branches_append]
      | apart before later op x y events' pass' differs branches =>
        refine .apart (events ++ before) later op x y ?_ (List.forall_mem_append.mpr ⟨pass, pass'⟩)
          differs ?_
        · simp [Outcome.andThen, events']
        · rw [Event.branches_append, List.append_assoc]
          exact (List.prefix_append_right_inj _).mpr branches
  | apart before later op x y events' pass differs branches =>
    have branches' := branches.trans (c.branches_prefix_andThen further)
    cases result with
    | error err => exact .apart before later op x y events' pass differs branches'
    | ok done =>
      refine .apart before (later ++ (more s).events) op x y ?_ pass differs branches'
      simp only at events'
      simp [Outcome.andThen, events']

/-- Behind a condition on which they agree. -/
theorem after {op : Comparison} {x y : Binary64} (agree : test op x y = op.holds x y)
    (later : Parallel test o c) :
    Parallel test (o.after [.conditional op x y (op.holds x y)]) (c.after (test op x y)) := by
  have pass : Event.Passes test (.conditional op x y (op.holds x y)) := agree
  cases later with
  | together pass' same =>
    refine .together (List.forall_mem_cons.mpr ⟨pass, pass'⟩) ?_
    rw [same, agree]
    rfl
  | apart before later op' x' y' events pass' differs branches =>
    refine .apart (.conditional op x y (op.holds x y) :: before) later op' x' y' ?_
      (List.forall_mem_cons.mpr ⟨pass, pass'⟩) differs ?_
    · exact congrArg (_ :: ·) events
    · rw [agree]
      exact (List.prefix_cons_inj _).mpr branches

/-- At a condition on which they differ. -/
theorem diverge {op : Comparison} {x y : Binary64} (differs : test op x y ≠ op.holds x y) :
    Parallel test (o.after [.conditional op x y (op.holds x y)]) (c.after (test op x y)) :=
  .apart [] o.events op x y rfl nofun differs (List.prefix_append [test op x y] c.branches)

end Parallel

/-- The code of a statement goes along with it, whatever compares in the code. -/
theorem Stmt.parallel_parsed [Context σ] (stmt : Stmt) (s : σ) :
    Parallel test (stmt.run s) (stmt.parsed.follow test s) := by
  induction stmt using Stmt.nestedInduction generalizing s with
  | assign x e =>
    rw [Stmt.parsed, CodeStmt.follow, e.value_parsed, Stmt.run_assign]
    match e.evaluate s with
    | (.error err, s) => exact .silent (.error err) s
    | (.ok v, s) => exact .together (by simp [Event.Passes]) rfl
  | block ss ih =>
    rw [Stmt.parsed, CodeStmt.follow, Stmt.run_block]
    induction ss generalizing s with
    | nil =>
      rw [Stmt.parsedList, CodeStmt.followAll, runAll_nil]
      exact .silent (.ok ()) s
    | cons stmt ss next =>
      rw [Stmt.parsedList, CodeStmt.followAll, runAll_cons]
      apply Parallel.andThen
      · exact ih stmt (List.mem_cons_self ..) s
      · exact next fun t there => ih t (List.mem_cons_of_mem _ there)
  | conditional op l r t f iht ihf =>
    simp only [Stmt.parsed, CodeStmt.follow, CodeExpr.value, Expr.value_parsed,
      Stmt.run_conditional]
    match l.evaluate s with
    | (.error err, s) => exact .silent (.error err) s
    | (.ok x, s) =>
      dsimp only
      match r.evaluate s with
      | (.error err, s) => exact .silent (.error err) s
      | (.ok y, s) =>
        dsimp only [Connective.apply]
        rw [Binary64.isTrue_comparison]
        by_cases agree : test op x y = op.holds x y
        · apply Parallel.after agree
          rw [agree]
          cases op.holds x y with
          | true => exact iht s
          | false =>
            cases f with
            | some f => exact ihf f rfl s
            | none =>
              have nothing : runAll (selected false t none) s = ⟨.ok (), s, []⟩ := runAll_nil s
              rw [nothing]
              exact .silent (.ok ()) s
        · exact .diverge agree

end

/-- A statement runs as what its code is read as. -/
theorem Stmt.exec_parsed {σ : Type} [Context σ] (stmt : Stmt) (s : σ) :
    stmt.parsed.exec s = ((stmt.run s).result, (stmt.run s).state) := by
  rw [CodeStmt.exec]
  cases stmt.parallel_parsed Comparison.holds s with
  | together pass same =>
    rw [same]
    rfl
  | apart before later op x y events pass differs branches => exact absurd rfl differs

/-! ## Programs -/

/-- The code of a statement is a program, if its indentation is blank and its names can be
names of variables. -/
theorem Stmt.parse_code_eq {style : CodeStyle} (equality : style.equals = .equality)
    (blank : ∀ c ∈ style.indent.toList, c = ' ' ∨ c = '\t') {s : Stmt}
    (names : ∀ name ∈ s.names,
      isIdentifier name.toList = true ∧ name ∉ ["if", "else", "pow", "NAN", "INFINITY"]) :
    Dialect.c.parse (s.code style) = some s.parsed := by
  apply Dialect.c.parse_code style equality
  · intro c here
    rcases blank c here with rfl | rfl
    · rfl
    · rfl
  · intro name here
    exact (Dialect.c.isName_toList name).mpr (names name here)

/-- The code of a statement is a program of the language, and from every context,
an environment for one, the program ends as the statement does: with success or the
same undefined name, and in the same context. -/
theorem exec_parse_code (style : CodeStyle) (equality : style.equals = .equality)
    (blank : ∀ c ∈ style.indent.toList, c = ' ' ∨ c = '\t') (s : Stmt)
    (names : ∀ name ∈ s.names,
      isIdentifier name.toList = true ∧ name ∉ ["if", "else", "pow", "NAN", "INFINITY"]) :
    ∃ program, Dialect.c.parse (s.code style) = some program ∧
      ∀ (σ : Type) [Context σ] (start : σ),
        program.exec start = ((s.run start).result, (s.run start).state) := by
  refine ⟨s.parsed, Stmt.parse_code_eq equality blank names, ?_⟩
  intro σ _ start
  exact s.exec_parsed start

/-- A conditional without an else part as the branch of one that has one, with the
negative zero and a power. -/
def nestedConditional : Stmt :=
  .conditional .equals (.var ⟨"x"⟩) (.const (.ofNumber ⟨0x8000000000000000⟩))
    (.conditional .lessThan (.var ⟨"x"⟩) (.var ⟨"_y1"⟩)
      (.block [.assign ⟨"x"⟩ (.binary .exponentiation (.var ⟨"x"⟩) (.var ⟨"z"⟩))]) none)
    (some (.assign ⟨"z"⟩ (.var ⟨"x"⟩)))

theorem exec_parse_code_nestedConditional :
    (∀ name ∈ nestedConditional.names,
      isIdentifier name.toList = true ∧ name ∉ ["if", "else", "pow", "NAN", "INFINITY"]) ∧
    ∃ program, Dialect.c.parse (nestedConditional.code ⟨"\t ", .equality⟩) = some program ∧
      ∀ (σ : Type) [Context σ] (start : σ), program.exec start =
        ((nestedConditional.run start).result, (nestedConditional.run start).state) := by
  have names : ∀ name ∈ nestedConditional.names,
      isIdentifier name.toList = true ∧ name ∉ ["if", "else", "pow", "NAN", "INFINITY"] := by
    decide
  exact ⟨names, exec_parse_code ⟨"\t ", .equality⟩ rfl (by simp) nestedConditional names⟩

end Abacus
