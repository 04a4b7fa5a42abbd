import Abacus.Proofs.Eval.Deeds

/-!
# When a run can fail

A run fails when it reads a name that has no value.  Such a name is among those that
the statement reads somewhere, since the names that a run reads are a part of these,
in the same order (`Stmt.asked_sublist`).  The name has no value at the end of the
run, where the read failed, and so it had none at the start, since no name is ever
unbound.

A run that succeeds has found a value for each name that it reads before it writes
it (`Dialogue.bound_of_ok`).  Bindings that are added leave those values as they are,
and by the frame theorem for environments they do not change the run.
-/

namespace Abacus

/-! ## Dialogues that fail and that do not -/

namespace Dialogue

variable {α : Type}

/-- A dialogue fails at a name that it asks for, and that has no value afterwards. -/
theorem unbound_of_error (d : Dialogue α) (env : Environment) {err : EvalError}
    (failed : (d.hold env).answer = .error err) :
    ∃ name, err = .undefinedVariable name ∧ name ∈ Access.asked (d.transcript env) ∧
      (d.hold env).state.get? name = none := by
  induction d generalizing env with
  | done a => cases failed
  | ask name next ih =>
    simp only [hold, transcript] at failed ⊢
    cases bound : env.get? name with
    | none =>
      rw [Environment.read_of_none bound] at failed ⊢
      cases failed
      exact ⟨name, rfl, List.mem_cons_self .., bound⟩
    | some x =>
      rw [Environment.read_of_some bound] at failed ⊢
      obtain ⟨other, same, asked, unbound⟩ := ih x env failed
      exact ⟨other, same, List.mem_cons_of_mem _ asked, unbound⟩
  | tell name x next ih => exact ih (env.set name x) failed
  | report event next ih => exact ih env failed

/-- What has no value after a dialogue had none before it. -/
theorem unbound_of_unbound_hold (d : Dialogue α) (env : Environment) {name : String}
    (unbound : (d.hold env).state.get? name = none) : env.get? name = none := by
  cases bound : env.get? name with
  | none => rfl
  | some x =>
    have before : env.contains name = true := by
      rw [Environment.contains_eq_isSome_get?, bound]
      rfl
    have after := env.contains_setAll (Access.written (d.transcript env)) name before
    rw [← d.state_hold, Environment.contains_eq_isSome_get?, unbound] at after
    cases after

/-- A dialogue that succeeds has found every exposed name bound. -/
theorem bound_of_ok (d : Dialogue α) (env : Environment) {a : α} (ok : (d.hold env).answer = .ok a)
    {name : String} (exposed : name ∈ Access.exposed (d.transcript env)) :
    ∃ x, env.get? name = some x := by
  induction d generalizing env with
  | done b => cases exposed
  | ask first next ih =>
    simp only [hold, transcript] at ok exposed
    cases bound : env.get? first with
    | none =>
      rw [Environment.read_of_none bound] at ok
      cases ok
    | some x =>
      rw [Environment.read_of_some bound] at ok exposed
      rcases List.mem_cons.mp exposed with rfl | later
      · exact ⟨x, bound⟩
      · exact ih x env ok later
  | tell written x next ih =>
    obtain ⟨later, different⟩ := List.mem_filter.mp exposed
    obtain ⟨y, bound⟩ := ih (env.set written x) ok later
    rw [Environment.get?_set, if_neg (Ne.symm (of_decide_eq_true different))] at bound
    exact ⟨y, bound⟩
  | report event next ih => exact ih env ok exposed

end Dialogue

/-! ## Runs -/

/-- A run fails only at a name that the statement reads and that is unbound from the
start to the end.  So it succeeds if every name that the statement reads is bound.  And
a run that succeeds does so with every further binding, and makes the same accesses. -/
theorem run_fails_at_unbound (s : Stmt) (env : Environment) :
    (∀ name, (s.run env).result = .error (.undefinedVariable name) →
      name ∈ (Node.stmt s).walk.filterMap Node.readName? ∧ env.contains name = false ∧
      (s.run env).state.contains name = false) ∧
    ((∀ name ∈ (Node.stmt s).walk.filterMap Node.readName?, env.contains name = true) →
      (s.run env).result = .ok ()) ∧
    ((s.run env).result = .ok () → ∀ larger : Environment,
      (∀ name value, env.get? name = some value → larger.get? name = some value) →
      (s.run larger).result = .ok () ∧
      (s.run (Journal.start larger)).state.accesses = (s.run (Journal.start env)).state.accesses) := by
  have failure : ∀ {err}, (s.run env).result = .error err → ∃ name,
      err = .undefinedVariable name ∧ name ∈ (Node.stmt s).reads ∧ env.contains name = false ∧
      (s.run env).state.contains name = false := by
    intro err failed
    rw [s.run_eq_hold] at failed ⊢
    obtain ⟨name, same, asked, unbound⟩ := s.dialogue.unbound_of_error env failed
    have before := s.dialogue.unbound_of_unbound_hold env unbound
    refine ⟨name, same, (s.asked_sublist env).subset asked, ?_, ?_⟩
    · rw [Environment.contains_eq_isSome_get?, before]
      rfl
    · rw [Environment.contains_eq_isSome_get?]
      exact congrArg Option.isSome unbound
  refine ⟨?_, ?_, ?_⟩
  · intro name failed
    obtain ⟨other, same, unbound⟩ := failure failed
    cases same
    exact unbound
  · intro bound
    cases result : (s.run env).result with
    | ok _ => rfl
    | error err =>
      obtain ⟨name, -, read, unbound, -⟩ := failure result
      rw [bound name read] at unbound
      cases unbound
  · intro ok larger keeps
    rw [s.run_eq_hold] at ok
    have agree : ∀ name ∈ Access.exposed (s.dialogue.transcript env),
        larger.get? name = env.get? name := by
      intro name exposed
      obtain ⟨x, bound⟩ := s.dialogue.bound_of_ok env ok exposed
      rw [bound, keeps name x bound]
    obtain ⟨accesses, answer, -⟩ := s.dialogue.hold_of_agree env larger agree
    rw [s.accesses_run_journal, s.accesses_run_journal, s.run_eq_hold]
    exact ⟨answer.trans ok, accesses⟩

/-- A branch that reads an unbound name fails the run if it is taken.  It does not if the
name is bound, and if it is not taken further bindings make no difference, not even at
the name that the run writes first. -/
theorem run_fails_at_unbound_branch :
    let s : Stmt := .block [.assign ⟨"x"⟩ (.var ⟨"y"⟩),
      .conditional .equals (.var ⟨"x"⟩) (.var ⟨"z"⟩) (.assign ⟨"y"⟩ (.var ⟨"missing"⟩)) none]
    let taken := (Environment.empty.set "y" ⟨1⟩).set "z" ⟨1⟩
    let complete := (taken.set "x" ⟨3⟩).set "missing" ⟨4⟩
    let untaken := (Environment.empty.set "y" ⟨1⟩).set "z" ⟨2⟩
    let larger := (untaken.set "x" ⟨3⟩).set "missing" ⟨4⟩
    ((s.run taken).result = .error (.undefinedVariable "missing") ∧
      (s.run taken).state.contains "missing" = false) ∧
    (s.run complete).result = .ok () ∧
    (s.run untaken).result = .ok () ∧ (s.run larger).result = .ok () ∧
      (s.run (Journal.start larger)).state.accesses =
        (s.run (Journal.start untaken)).state.accesses := by
  intro s taken complete untaken larger
  have reads : (Node.stmt s).walk.filterMap Node.readName? = ["y", "x", "z", "missing"] := by
    have names : (Node.stmt s).reads = ["y", "x", "z", "missing"] := by
      simp [s, Node.reads_block, Node.reads_assign, Node.reads_conditional, Expr.names]
    exact names
  have equal : Binary64.same ⟨1⟩ ⟨1⟩ = true := by decide
  have different : Binary64.same ⟨1⟩ ⟨2⟩ = false := by decide
  have failed : (s.run taken).result = .error (.undefinedVariable "missing") := by
    rw [s.run_eq_hold]
    simp [s, taken, Stmt.dialogue, Stmt.dialogueList, Expr.dialogue, Dialogue.bind, Dialogue.hold,
      Held.outcome, Context.read, Context.write, Environment.get?_set, Comparison.holds, equal]
  have ok : (s.run untaken).result = .ok () := by
    rw [s.run_eq_hold]
    simp [s, untaken, Stmt.dialogue, Stmt.dialogueList, Stmt.dialogueOption, Expr.dialogue,
      Dialogue.bind, Dialogue.hold, Held.outcome, Context.read, Context.write,
      Environment.get?_set, Comparison.holds, different]
  refine ⟨⟨failed, ((run_fails_at_unbound s taken).1 "missing" failed).2.2⟩,
    (run_fails_at_unbound s complete).2.1 ?_, ok, (run_fails_at_unbound s untaken).2.2 ok larger ?_⟩
  · rw [reads]
    simp [complete, taken, Environment.contains_eq_isSome_get?, Environment.get?_set]
  · intro name value bound
    simp only [larger, untaken, Environment.get?_set, Environment.get?_empty] at bound ⊢
    grind

end Abacus
