import Abacus.Proofs.Eval.Dialogue

/-!
# What a run depends on, and what it changes

A run on an environment is described by its accesses.  Of the environment it
depends on the *exposed* names only, those that it reads before it writes them.
Which names these are is found out by the run itself, but any environment that
agrees on them makes for the same run: the same accesses with the same values,
and the same result (`Dialogue.hold_of_agree`).

What a run changes is what it writes.  Whether it succeeds or fails, it leaves the
environment with its writes applied in order (`Dialogue.state_hold`).

Both are inductions over the dialogue of the run.  The environments of the two
runs drift apart from the start, and the induction goes through because a write
brings them together at its name, and takes that name out of what is exposed.
-/

namespace Abacus

namespace Access

/-- The values that are written, in order. -/
def written : List Access → List (String × Binary64)
  | [] => []
  | .get _ _ :: later => written later
  | .set name value :: later => (name, value) :: written later

/-- The names that are read, in order. -/
def asked : List Access → List String
  | [] => []
  | .get name _ :: later => name :: asked later
  | .set _ _ :: later => asked later

/-- The names that are read before they are written. -/
def exposed : List Access → List String
  | [] => []
  | .get name _ :: later => name :: exposed later
  | .set name _ :: later => (exposed later).filter (· ≠ name)

end Access

namespace Environment

/-! ## Environments -/

theorem setAll_cons (env : Environment) (name : String) (value : Binary64)
    (bindings : List (String × Binary64)) :
    env.setAll ((name, value) :: bindings) = (env.set name value).setAll bindings := rfl

/-- A name that gets no value keeps its binding or its absence. -/
theorem get?_setAll_of_notMem (env : Environment) (bindings : List (String × Binary64))
    (name : String) (absent : name ∉ bindings.map Prod.fst) :
    (env.setAll bindings).get? name = env.get? name := by
  induction bindings generalizing env with
  | nil => rfl
  | cons binding bindings ih =>
    obtain ⟨first, value⟩ := binding
    rw [List.map_cons, List.mem_cons, not_or] at absent
    rw [setAll_cons, ih _ absent.2, get?_set, if_neg (Ne.symm absent.1)]

/-- No name is ever unbound. -/
theorem contains_setAll (env : Environment) (bindings : List (String × Binary64)) (name : String)
    (bound : env.contains name = true) : (env.setAll bindings).contains name = true := by
  induction bindings generalizing env with
  | nil => exact bound
  | cons binding bindings ih =>
    obtain ⟨first, value⟩ := binding
    apply ih
    rw [contains_eq_isSome_get?] at bound ⊢
    rw [get?_set]
    split
    · rfl
    · exact bound

end Environment

namespace Dialogue

/-! ## Dialogues with environments -/

variable {α : Type}

/-- A dialogue leaves the environment with the writes of its transcript. -/
theorem state_hold (d : Dialogue α) (env : Environment) :
    (d.hold env).state = env.setAll (Access.written (d.transcript env)) := by
  induction d generalizing env with
  | done a => rfl
  | ask name next ih =>
    cases bound : env.get? name with
    | none =>
      rw [hold, transcript, Environment.read_of_none bound]
      rfl
    | some x =>
      rw [hold, transcript, Environment.read_of_some bound]
      exact ih x env
  | tell name x next ih => exact ih (env.set name x)
  | report event next ih => exact ih env

/-- Environments that agree on the exposed names make for the same dialogue. -/
theorem hold_of_agree (d : Dialogue α) (e₁ e₂ : Environment)
    (agree : ∀ name ∈ Access.exposed (d.transcript e₁), e₂.get? name = e₁.get? name) :
    d.transcript e₂ = d.transcript e₁ ∧ (d.hold e₂).answer = (d.hold e₁).answer ∧
      (d.hold e₂).events = (d.hold e₁).events := by
  induction d generalizing e₁ e₂ with
  | done a => exact ⟨rfl, rfl, rfl⟩
  | ask name next ih =>
    simp only [hold, transcript] at agree ⊢
    cases bound : e₁.get? name with
    | none =>
      rw [Environment.read_of_none bound] at agree ⊢
      have unbound : e₂.get? name = none := (agree name (List.mem_cons_self ..)).trans bound
      rw [Environment.read_of_none unbound]
      exact ⟨rfl, rfl, rfl⟩
    | some x =>
      rw [Environment.read_of_some bound] at agree ⊢
      obtain ⟨here, later⟩ := List.forall_mem_cons.mp agree
      rw [Environment.read_of_some (here.trans bound)]
      obtain ⟨accesses, answer, events⟩ := ih x e₁ e₂ later
      exact ⟨congrArg (.get name (some x) :: ·) accesses, answer, events⟩
  | tell name x next ih =>
    -- the write makes the environments agree at its name, exposed later or not
    have later : ∀ other ∈ Access.exposed (next.transcript (e₁.set name x)),
        (e₂.set name x).get? other = (e₁.set name x).get? other := by
      intro other here
      rw [Environment.get?_set, Environment.get?_set]
      split
      · rfl
      next different =>
        exact agree other (List.mem_filter.mpr ⟨here, decide_eq_true (Ne.symm different)⟩)
    obtain ⟨accesses, answer, events⟩ := ih (e₁.set name x) (e₂.set name x) later
    exact ⟨congrArg (Access.set name x :: ·) accesses, answer, events⟩
  | report event next ih =>
    obtain ⟨accesses, answer, events⟩ := ih e₁ e₂ agree
    exact ⟨accesses, answer, congrArg (event :: ·) events⟩

end Dialogue

/-! ## Runs -/

/-- A run depends on the names that it reads before it writes them, and changes the
names that it writes: two environments that agree on the former make for the same
accesses, events and result, and every run leaves its environment with the recorded
writes applied in order. -/
theorem run_depends_on_exposed :
    (∀ (s : Stmt) (e₁ e₂ : Environment),
      (∀ name ∈ Access.exposed (s.run (Journal.start e₁)).state.accesses,
        e₂.get? name = e₁.get? name) →
      (s.run (Journal.start e₂)).state.accesses = (s.run (Journal.start e₁)).state.accesses ∧
      (s.run e₂).result = (s.run e₁).result ∧
      (s.run e₂).events = (s.run e₁).events) ∧
    ∀ (s : Stmt) (env : Environment),
      (s.run (Journal.start env)).result = (s.run env).result ∧
      (s.run (Journal.start env)).state.inner = (s.run env).state ∧
      (s.run env).state =
        env.setAll (Access.written (s.run (Journal.start env)).state.accesses) ∧
      (∀ name,
        name ∉ (Access.written (s.run (Journal.start env)).state.accesses).map Prod.fst →
        (s.run env).state.get? name = env.get? name) ∧
      ∀ name, env.contains name = true → (s.run env).state.contains name = true := by
  constructor
  · intro s e₁ e₂ agree
    rw [s.accesses_run_journal] at agree
    rw [s.accesses_run_journal, s.accesses_run_journal, s.run_eq_hold, s.run_eq_hold]
    exact s.dialogue.hold_of_agree e₁ e₂ agree
  · intro s env
    have final : (s.run env).state = env.setAll (Access.written (s.dialogue.transcript env)) := by
      rw [s.run_eq_hold]
      exact s.dialogue.state_hold env
    rw [s.accesses_run_journal, s.run_journal]
    refine ⟨rfl, rfl, final, fun name absent => ?_, fun name bound => ?_⟩
    · rw [final]
      exact env.get?_setAll_of_notMem _ name absent
    · rw [final]
      exact env.contains_setAll _ name bound

/-- The value that `x` starts with is overwritten before it is read, `unread` is never
looked at, and the branch that is taken ends in a failed read. -/
theorem run_depends_on_exposed_overwritten :
    let s : Stmt := .block [.assign ⟨"x"⟩ (.var ⟨"y"⟩),
      .conditional .equals (.var ⟨"x"⟩) (.var ⟨"z"⟩) (.assign ⟨"y"⟩ (.var ⟨"missing"⟩)) none]
    let e₁ := (Environment.empty.set "y" ⟨1⟩).set "z" ⟨1⟩
    let e₂ := (e₁.set "x" ⟨5⟩).set "unread" ⟨7⟩
    Access.exposed (s.run (Journal.start e₁)).state.accesses = ["y", "z", "missing"] ∧
      (s.run (Journal.start e₂)).state.accesses = (s.run (Journal.start e₁)).state.accesses ∧
      (s.run e₂).result = (s.run e₁).result ∧ (s.run e₂).events = (s.run e₁).events := by
  intro s e₁ e₂
  have exposed :
      Access.exposed (s.run (Journal.start e₁)).state.accesses = ["y", "z", "missing"] := by
    have equal : Binary64.same ⟨1⟩ ⟨1⟩ = true := by decide
    rw [s.accesses_run_journal]
    simp [s, e₁, Stmt.dialogue, Stmt.dialogueList, Expr.dialogue, Dialogue.bind,
      Dialogue.transcript, Context.read, Context.write, Environment.get?_set, Comparison.holds,
      equal, Access.exposed]
  refine ⟨exposed, run_depends_on_exposed.1 s e₁ e₂ ?_⟩
  rw [exposed]
  simp [e₁, e₂, Environment.get?_set]

end Abacus
