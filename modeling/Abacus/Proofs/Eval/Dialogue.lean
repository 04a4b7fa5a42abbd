import Abacus.Eval.Journal
import Abacus.Eval.Run

/-!
# Runs as dialogues

A run knows its context only through reads and writes.  So what a statement does
can be said without a context, as a *dialogue*: a tree that asks for the value of
a name and goes on with the answer, tells a value for a name, reports an event,
or is done.  A read that fails ends the dialogue.

Evaluating an expression or running a statement is holding its dialogue with the
context (`Expr.hold_dialogue`, `Stmt.run_eq_hold`).  What is true of every
dialogue is then proved by one induction with four cases, and needs nothing of
expressions and statements.  The first example is the journal.  It records the
*transcript* of the dialogue and changes nothing else (`Stmt.run_journal`).
-/

namespace Abacus

/-- What is asked and told on the way to a result. -/
inductive Dialogue (α : Type) where
  /-- The result is known. -/
  | done (result : α)
  /-- The value of a name is needed. -/
  | ask (name : String) (next : Binary64 → Dialogue α)
  /-- A name gets a value. -/
  | tell (name : String) (value : Binary64) (next : Dialogue α)
  /-- An event is told. -/
  | report (event : Event) (next : Dialogue α)

/-- How a dialogue ended. -/
structure Held (σ α : Type) where
  /-- The result, or the error of the read that failed. -/
  answer : Except EvalError α
  /-- The context afterwards. -/
  state : σ
  /-- The events, in order. -/
  events : List Event

namespace Dialogue

variable {σ α β : Type} [Context σ]

/-- Goes on with a second dialogue when the first is done. -/
def bind : Dialogue α → (α → Dialogue β) → Dialogue β
  | .done a, more => more a
  | .ask name next, more => .ask name fun x => (next x).bind more
  | .tell name x next, more => .tell name x (next.bind more)
  | .report event next, more => .report event (next.bind more)

/-- Holds a dialogue with a context. -/
def hold : Dialogue α → σ → Held σ α
  | .done a, s => ⟨.ok a, s, []⟩
  | .ask name next, s =>
    match Context.read s name with
    | (.ok x, s) => (next x).hold s
    | (.error err, s) => ⟨.error err, s, []⟩
  | .tell name x next, s => next.hold (Context.write s name x)
  | .report event next, s =>
    let held := next.hold s
    ⟨held.answer, held.state, event :: held.events⟩

/-- The accesses that a dialogue makes to a context, in order. -/
def transcript : Dialogue α → σ → List Access
  | .done _, _ => []
  | .ask name next, s =>
    match Context.read s name with
    | (.ok x, s) => .get name (some x) :: (next x).transcript s
    | (.error _, _) => [.get name none]
  | .tell name x next, s => .set name x :: next.transcript (Context.write s name x)
  | .report _ next, s => next.transcript s

/-- The second dialogue is held with the context that the first one leaves, unless a
read of the first one failed. -/
theorem hold_bind (d : Dialogue α) (more : α → Dialogue β) (s : σ) :
    (d.bind more).hold s =
      match (d.hold s).answer with
      | .error err => ⟨.error err, (d.hold s).state, (d.hold s).events⟩
      | .ok a =>
        let held := (more a).hold (d.hold s).state
        ⟨held.answer, held.state, (d.hold s).events ++ held.events⟩ := by
  induction d generalizing s with
  | done a => rfl
  | ask name next ih =>
    simp only [bind, hold]
    match Context.read s name with
    | (.ok x, s) => exact ih x s
    | (.error err, s) => rfl
  | tell name x next ih => exact ih _
  | report event next ih =>
    simp only [bind, hold]
    rw [ih]
    cases (next.hold s).answer with
    | error err => rfl
    | ok a => rfl

/-- The second dialogue adds its accesses, unless a read of the first one failed. -/
theorem transcript_bind (d : Dialogue α) (more : α → Dialogue β) (s : σ) :
    (d.bind more).transcript s =
      d.transcript s ++
        match (d.hold s).answer with
        | .error _ => []
        | .ok a => (more a).transcript (d.hold s).state := by
  induction d generalizing s with
  | done a => rfl
  | ask name next ih =>
    simp only [bind, hold, transcript]
    match Context.read s name with
    | (.ok x, s) => exact congrArg (.get name (some x) :: ·) (ih x s)
    | (.error err, s) => rfl
  | tell name x next ih => exact congrArg (.set name x :: ·) (ih _)
  | report event next ih => exact ih s

/-- A journal adds the transcript to its record, and does to the context that it
wraps what the dialogue does. -/
theorem hold_journal (d : Dialogue α) (s : σ) (latest : List Access) :
    d.hold (⟨s, latest⟩ : Journal σ) =
      ⟨(d.hold s).answer, ⟨(d.hold s).state, (d.transcript s).reverse ++ latest⟩,
        (d.hold s).events⟩ := by
  induction d generalizing s latest with
  | done a => rfl
  | ask name next ih =>
    have wrapped : Context.read (⟨s, latest⟩ : Journal σ) name =
        ((Context.read s name).1, ⟨(Context.read s name).2,
          .get name (Context.read s name).1.toOption :: latest⟩) := rfl
    simp only [hold, transcript]
    rw [wrapped]
    match Context.read s name with
    | (.ok x, s) =>
      simp only
      rw [ih, List.reverse_cons, List.append_assoc]
      rfl
    | (.error err, s) => rfl
  | tell name x next ih =>
    have wrapped : Context.write (⟨s, latest⟩ : Journal σ) name x =
        ⟨Context.write s name x, .set name x :: latest⟩ := rfl
    simp only [hold, transcript]
    rw [wrapped, ih, List.reverse_cons, List.append_assoc]
    rfl
  | report event next ih =>
    simp only [hold, transcript]
    rw [ih]

end Dialogue

section

variable [Arithmetic]

/-! ## The dialogues of trees -/

/-- The dialogue of an expression: its names are asked for from left to right. -/
def Expr.dialogue : Expr → Dialogue Binary64
  | .const c => .done c.value
  | .var v => .ask v.name .done
  | .binary op l r =>
    l.dialogue.bind fun x => r.dialogue.bind fun y => .done (op.apply x y)

mutual

/-- The dialogue of a statement. -/
def Stmt.dialogue : Stmt → Dialogue Unit
  | .assign x e =>
    e.dialogue.bind fun v => .report (.assign x.name v) (.tell x.name v (.done ()))
  | .block ss => Stmt.dialogueList ss
  | .conditional op l r t f =>
    l.dialogue.bind fun x => r.dialogue.bind fun y =>
      .report (.conditional op x y (op.holds x y))
        (if op.holds x y then t.dialogue else Stmt.dialogueOption f)

/-- The dialogue of statements that run one after the other. -/
def Stmt.dialogueList : List Stmt → Dialogue Unit
  | [] => .done ()
  | s :: ss => s.dialogue.bind fun _ => Stmt.dialogueList ss

/-- The dialogue of a statement that may be absent. -/
def Stmt.dialogueOption : Option Stmt → Dialogue Unit
  | none => .done ()
  | some s => s.dialogue

end

variable {σ : Type} [Context σ]

/-- An expression is evaluated by holding its dialogue. -/
theorem Expr.hold_dialogue (e : Expr) (s : σ) :
    e.dialogue.hold s = ⟨(e.evaluate s).1, (e.evaluate s).2, []⟩ := by
  induction e generalizing s with
  | const c => rw [Expr.dialogue, Dialogue.hold, Expr.evaluate_const]
  | var v =>
    rw [Expr.dialogue, Dialogue.hold, Expr.evaluate_var]
    match Context.read s v.name with
    | (.ok x, s) => rfl
    | (.error err, s) => rfl
  | binary op l r ihl ihr =>
    rw [Expr.dialogue, Dialogue.hold_bind, ihl, Expr.evaluate_binary]
    match l.evaluate s with
    | (.error err, s) => rfl
    | (.ok x, s) =>
      simp only
      rw [Dialogue.hold_bind, ihr]
      match r.evaluate s with
      | (.error err, s) => rfl
      | (.ok y, s) => rfl

/-- The end of a run, from that of its dialogue. -/
def Held.outcome {σ : Type} (held : Held σ Unit) : Outcome σ :=
  ⟨held.answer, held.state, held.events⟩

theorem Stmt.runAll_eq_hold (ss : List Stmt) (s : σ)
    (each : ∀ stmt ∈ ss, ∀ s : σ, stmt.run s = (stmt.dialogue.hold s).outcome) :
    runAll ss s = ((Stmt.dialogueList ss).hold s).outcome := by
  induction ss generalizing s with
  | nil =>
    rw [Stmt.dialogueList, runAll_nil]
    rfl
  | cons stmt ss ih =>
    have later := fun s => ih s fun t there => each t (List.mem_cons_of_mem _ there)
    rw [Stmt.dialogueList, Dialogue.hold_bind, runAll_cons, each stmt (List.mem_cons_self ..)]
    match stmt.dialogue.hold s with
    | ⟨.error err, s, events⟩ => rfl
    | ⟨.ok (), s, events⟩ =>
      simp only [Held.outcome, Outcome.andThen]
      rw [later]
      rfl

/-- A statement is run by holding its dialogue. -/
theorem Stmt.run_eq_hold (stmt : Stmt) (s : σ) : stmt.run s = (stmt.dialogue.hold s).outcome := by
  induction stmt using Stmt.nestedInduction generalizing s with
  | assign x e =>
    rw [Stmt.dialogue, Dialogue.hold_bind, e.hold_dialogue, Stmt.run_assign]
    match e.evaluate s with
    | (.error err, s) => rfl
    | (.ok v, s) => rfl
  | block ss ih =>
    rw [Stmt.dialogue, Stmt.run_block]
    exact Stmt.runAll_eq_hold ss s ih
  | conditional op l r t f iht ihf =>
    have branch : ∀ (holds : Bool) (s : σ), runAll (selected holds t f) s =
        ((if holds then t.dialogue else Stmt.dialogueOption f).hold s).outcome := by
      intro holds s
      cases holds with
      | true => exact iht s
      | false =>
        cases f with
        | none => exact runAll_nil s
        | some f => exact ihf f rfl s
    rw [Stmt.dialogue, Dialogue.hold_bind, l.hold_dialogue, Stmt.run_conditional]
    match l.evaluate s with
    | (.error err, s) => rfl
    | (.ok x, s) =>
      simp only
      rw [Dialogue.hold_bind, r.hold_dialogue]
      match r.evaluate s with
      | (.error err, s) => rfl
      | (.ok y, s) =>
        simp only [Dialogue.hold]
        rw [branch]
        rfl

/-- What a run accesses is the transcript of its dialogue, and recording it changes
nothing else. -/
theorem Stmt.run_journal (stmt : Stmt) (s : σ) :
    stmt.run (Journal.start s) =
      ⟨(stmt.run s).result, ⟨(stmt.run s).state, (stmt.dialogue.transcript s).reverse⟩,
        (stmt.run s).events⟩ := by
  rw [stmt.run_eq_hold, stmt.run_eq_hold, Journal.start, Dialogue.hold_journal, List.append_nil]
  rfl

theorem Stmt.accesses_run_journal (stmt : Stmt) (s : σ) :
    (stmt.run (Journal.start s)).state.accesses = stmt.dialogue.transcript s := by
  rw [stmt.run_journal, Journal.accesses, List.reverse_reverse]

end

end Abacus
