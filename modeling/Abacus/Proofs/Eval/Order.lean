import Abacus.Eval.Evaluate
import Abacus.Eval.Journal
import Abacus.Proofs.Tree.Names

/-!
# The order of evaluation

Evaluating an expression is reading its names one after the other, in the order of
the walk, and stopping behind the first read that fails (`readEach`).  Reads may
change the context, so the same name can have another value each time it is read.
If all reads succeed, each variable of the expression stands for the value of its
own read, and the operations are applied to these (`Expr.Gives`).

The evaluator and the reads in turn are compared by induction on the expression.
What makes it go through is that reading two lists of names is reading the second
with the context that the first leaves, unless the first failed
(`readEach_append`).
-/

namespace Abacus

/-! ## Reading in turn -/

/-- What came of reading names one after the other. -/
structure Readings (σ : Type) where
  /-- The names that were read, with their values. -/
  values : List (String × Binary64)
  /-- The name whose read failed, and its error. -/
  failure : Option (String × EvalError)
  /-- The context afterwards. -/
  state : σ

section

variable {σ : Type} [Context σ]

/-- Reads names one after the other, up to the first read that fails. -/
def readEach : List String → σ → Readings σ
  | [], s => ⟨[], none, s⟩
  | name :: names, s =>
    match Context.read s name with
    | (.error err, s) => ⟨[], some (name, err), s⟩
    | (.ok x, s) =>
      let later := readEach names s
      ⟨(name, x) :: later.values, later.failure, later.state⟩

/-- Goes on reading if nothing failed. -/
def Readings.andThen (r : Readings σ) (next : σ → Readings σ) : Readings σ :=
  match r.failure with
  | some _ => r
  | none => ⟨r.values ++ (next r.state).values, (next r.state).failure, (next r.state).state⟩

/-- The accesses that reading in turn makes. -/
def Readings.accesses {σ : Type} (r : Readings σ) : List Access :=
  (r.values.map fun (name, x) => .get name (some x)) ++
    r.failure.toList.map fun (name, _) => .get name none

theorem readEach_append (ms ns : List String) (s : σ) :
    readEach (ms ++ ns) s = (readEach ms s).andThen (readEach ns) := by
  induction ms generalizing s with
  | nil => rfl
  | cons name ms ih =>
    simp only [List.cons_append, readEach]
    obtain ⟨answer, s⟩ := Context.read s name
    cases answer with
    | error err => rfl
    | ok x =>
      simp only [ih]
      obtain ⟨values, failure, state⟩ := readEach ms s
      cases failure with
      | none => rfl
      | some failed => rfl

/-- The names that are read are the first ones.  Only a failure leaves names unread. -/
theorem readEach_names (names : List String) (s : σ) :
    match (readEach names s).failure with
    | none => (readEach names s).values.map Prod.fst = names
    | some (name, _) => (readEach names s).values.map Prod.fst ++ [name] <+: names := by
  induction names generalizing s with
  | nil => rfl
  | cons name names ih =>
    simp only [readEach]
    obtain ⟨answer, s⟩ := Context.read s name
    cases answer with
    | error err => exact ⟨names, rfl⟩
    | ok x =>
      have later := ih s
      simp only
      cases failure : (readEach names s).failure with
      | none =>
        rw [failure] at later
        exact congrArg (name :: ·) later
      | some failed =>
        rw [failure] at later
        exact List.cons_prefix_cons.mpr ⟨rfl, later⟩

/-- A journal records the reads, and changes nothing else. -/
theorem readEach_journal (names : List String) (s : σ) (latest : List Access) :
    readEach names (⟨s, latest⟩ : Journal σ) =
      ⟨(readEach names s).values, (readEach names s).failure,
        ⟨(readEach names s).state, (readEach names s).accesses.reverse ++ latest⟩⟩ := by
  induction names generalizing s latest with
  | nil => rfl
  | cons name names ih =>
    have wrapped : Context.read (⟨s, latest⟩ : Journal σ) name =
        ((Context.read s name).1, ⟨(Context.read s name).2,
          .get name (Context.read s name).1.toOption :: latest⟩) := rfl
    simp only [readEach]
    rw [wrapped]
    obtain ⟨answer, s⟩ := Context.read s name
    cases answer with
    | error err => rfl
    | ok x =>
      simp only [ih, Readings.accesses, List.map_cons, List.cons_append, List.reverse_cons,
        List.append_assoc]
      rfl

end

/-! ## Values from readings -/

section

variable [Arithmetic]

/-- The value of an expression if its variables stand for the given values, each
occurrence for one of its own, from left to right. -/
inductive Expr.Gives : Expr → List Binary64 → Binary64 → Prop where
  | const (c : Constant) : Gives (.const c) [] c.value
  | var (v : Variable) (x : Binary64) : Gives (.var v) [x] x
  | binary {op : Operator} {l r : Expr} {xs ys : List Binary64} {x y : Binary64} :
    Gives l xs x → Gives r ys y → Gives (.binary op l r) (xs ++ ys) (op.apply x y)

/-- There is one value for each occurrence of a variable. -/
theorem Expr.Gives.length_eq {e : Expr} {values : List Binary64} {x : Binary64}
    (gives : e.Gives values x) : values.length = e.names.length := by
  induction gives with
  | const c => rfl
  | var v x => rfl
  | binary left right ihl ihr =>
    rw [Expr.names, List.length_append, List.length_append, ihl, ihr]

theorem Expr.Gives.unique {e : Expr} {values : List Binary64} {x y : Binary64}
    (first : e.Gives values x) (second : e.Gives values y) : x = y := by
  induction first generalizing y with
  | const c =>
    cases second
    rfl
  | var v x =>
    cases second
    rfl
  | @binary op l r xs ys x y left right ihl ihr =>
    generalize all : xs ++ ys = values at second
    cases second with
    | binary left' right' =>
      obtain ⟨rfl, rfl⟩ := List.append_inj all (left.length_eq.trans left'.length_eq.symm)
      rw [ihl left', ihr right']

/-- An evaluation ended as the reads did: with the error of the one that failed, or with
the value that the values read give. -/
def Expr.EndsWith {σ : Type} (e : Expr) (r : Readings σ) (answer : Except EvalError Binary64 × σ) :
    Prop :=
  answer.2 = r.state ∧
  match r.failure with
  | some (_, err) => answer.1 = .error err
  | none => ∃ x, answer.1 = .ok x ∧ e.Gives (r.values.map Prod.snd) x

/-- An expression is evaluated by reading its names in turn. -/
theorem Expr.evaluate_endsWith {σ : Type} [Context σ] (e : Expr) (s : σ) :
    e.EndsWith (readEach e.names s) (e.evaluate s) := by
  induction e generalizing s with
  | const c =>
    rw [Expr.evaluate_const]
    exact ⟨rfl, c.value, rfl, .const c⟩
  | var v =>
    rw [Expr.evaluate_var, Expr.names, readEach]
    obtain ⟨answer, s⟩ := Context.read s v.name
    cases answer with
    | error err => exact ⟨rfl, rfl⟩
    | ok x => exact ⟨rfl, x, rfl, .var v x⟩
  | binary op l r ihl ihr =>
    have left := ihl s
    rw [Expr.evaluate_binary, Expr.names, readEach_append, Readings.andThen]
    generalize readEach l.names s = readings, l.evaluate s = ended at left ⊢
    obtain ⟨values, failure, state⟩ := readings
    obtain ⟨answer, after⟩ := ended
    cases failure with
    | some failed =>
      obtain ⟨rfl, rfl⟩ := left
      exact ⟨rfl, rfl⟩
    | none =>
      obtain ⟨rfl, x, rfl, gives⟩ := left
      -- the right operand finds the context as the reads of the left one leave it
      have right := ihr after
      simp only
      generalize readEach r.names after = readings, r.evaluate after = ended at right ⊢
      obtain ⟨values', failure', state'⟩ := readings
      obtain ⟨answer', after'⟩ := ended
      cases failure' with
      | some failed =>
        obtain ⟨rfl, rfl⟩ := right
        exact ⟨rfl, rfl⟩
      | none =>
        obtain ⟨rfl, y, rfl, gives'⟩ := right
        refine ⟨rfl, op.apply x y, rfl, ?_⟩
        rw [List.map_append]
        exact .binary gives gives'

/-- The reads leave one way for an evaluation to end. -/
theorem Expr.EndsWith.unique {σ : Type} {e : Expr} {r : Readings σ}
    {a b : Except EvalError Binary64 × σ} (first : e.EndsWith r a) (second : e.EndsWith r b) :
    a = b := by
  obtain ⟨values, failure, state⟩ := r
  obtain ⟨state₁, answer₁⟩ := first
  obtain ⟨state₂, answer₂⟩ := second
  refine Prod.ext ?_ (state₁.trans state₂.symm)
  cases failure with
  | some failed => exact Eq.trans answer₁ (Eq.symm answer₂)
  | none =>
    obtain ⟨x, found₁, gives₁⟩ := answer₁
    obtain ⟨y, found₂, gives₂⟩ := answer₂
    rw [found₁, found₂, gives₁.unique gives₂]

/-- A journal records the reads of an evaluation, and changes nothing else. -/
theorem Expr.evaluate_journal {σ : Type} [Context σ] (e : Expr) (s : σ) :
    e.evaluate (Journal.start s) =
      ((e.evaluate s).1, ⟨(e.evaluate s).2, (readEach e.names s).accesses.reverse⟩) := by
  have logged := e.evaluate_endsWith (Journal.start s)
  rw [Journal.start, readEach_journal, List.append_nil] at logged
  obtain ⟨state, answer⟩ := e.evaluate_endsWith s
  exact logged.unique ⟨by rw [state], answer⟩

end

/-- An expression reads the names of its variables in the order of the walk, up to the
first read that fails, and writes nothing.  If a read fails, its error is the result.
Otherwise all names are read, and the result is what their values give. -/
theorem evaluate_reads_in_walk_order {σ : Type} [Context σ] (e : Expr) (s : σ) :
    let names := (Node.expr e).walk.filterMap Node.readName?
    let r := readEach names s
    (e.evaluate (Journal.start s)).1 = (e.evaluate s).1 ∧
    (e.evaluate (Journal.start s)).2.inner = (e.evaluate s).2 ∧
    (e.evaluate (Journal.start s)).2.accesses =
      (r.values.map fun (name, x) => .get name (some x)) ++
        (r.failure.toList.map fun (name, _) => .get name none) ∧
    (e.evaluate s).2 = r.state ∧
    match r.failure with
    | some (name, err) => r.values.map Prod.fst ++ [name] <+: names ∧
        (e.evaluate s).1 = .error err
    | none => r.values.map Prod.fst = names ∧
        ∀ x, (e.evaluate s).1 = .ok x ↔ e.Gives (r.values.map Prod.snd) x := by
  intro names r
  have order : names = e.names := Node.reads_expr e
  have read : r = readEach e.names s := by rw [← order]
  have visited := readEach_names names s
  obtain ⟨state, answer⟩ := e.evaluate_endsWith s
  rw [← read] at state answer
  rw [e.evaluate_journal, ← read]
  refine ⟨rfl, rfl, List.reverse_reverse _, state, ?_⟩
  change match r.failure with
    | none => r.values.map Prod.fst = names
    | some (name, _) => r.values.map Prod.fst ++ [name] <+: names at visited
  cases failure : r.failure with
  | some failed =>
    rw [failure] at visited answer
    exact ⟨visited, answer⟩
  | none =>
    rw [failure] at visited answer
    obtain ⟨y, found, gives⟩ := answer
    refine ⟨visited, fun x => ⟨?_, ?_⟩⟩
    · intro same
      cases found.symm.trans same
      exact gives
    · intro other
      rw [found, gives.unique other]

end Abacus
