import Abacus.Proofs.Eval.Deeds

/-!
# Independent statements commute

Two statements are independent if no target of either one occurs in the other, be it
as a target or as a variable that is read.  They may read the same names.  Then it does
not matter which of them runs first.

The second one does not see that the first one has run, since all that the first has
changed are its targets (`Stmt.alike_setAll`).  So each of the two makes the writes
that it would make alone, if it succeeds (`Stmt.run_pair`).  These writes are to
different names and can be exchanged (`Environment.setAll_comm`).
-/

namespace Abacus

/-! ## Writes to different names -/

/-- Names that are asked for before they are written are asked for. -/
theorem Access.exposed_subset_asked (log : List Access) : Access.exposed log ⊆ Access.asked log := by
  induction log with
  | nil => exact List.Subset.refl _
  | cons access log ih =>
    cases access with
    | get name value => exact List.cons_subset_cons name ih
    | set name value => exact fun _ exposed => ih (List.mem_of_mem_filter exposed)

namespace Environment

/-- Where two environments agree they do so after the same writes, and writes make them
agree. -/
theorem get?_setAll_congr {env other : Environment} {bindings : List (String × Binary64)}
    {name : String} (agree : name ∉ bindings.map Prod.fst → env.get? name = other.get? name) :
    (env.setAll bindings).get? name = (other.setAll bindings).get? name := by
  induction bindings generalizing env other with
  | nil => exact agree List.not_mem_nil
  | cons binding bindings ih =>
    obtain ⟨first, value⟩ := binding
    rw [setAll_cons, setAll_cons]
    refine ih fun absent => ?_
    rw [get?_set, get?_set]
    split
    · rfl
    next different =>
      exact agree (List.not_mem_cons_of_ne_of_not_mem (Ne.symm different) absent)

/-- Bindings of different names can be made in either order. -/
theorem setAll_comm (env : Environment) {first second : List (String × Binary64)}
    (apart : ∀ name ∈ first.map Prod.fst, name ∉ second.map Prod.fst) :
    (env.setAll first).setAll second = (env.setAll second).setAll first := by
  apply Environment.ext
  intro name
  by_cases here : name ∈ first.map Prod.fst
  · have absent := apart name here
    calc ((env.setAll first).setAll second).get? name
      _ = (env.setAll first).get? name := get?_setAll_of_notMem _ _ name absent
      _ = ((env.setAll second).setAll first).get? name :=
        get?_setAll_congr fun other => absurd here other
  · calc ((env.setAll first).setAll second).get? name
      _ = (env.setAll second).get? name :=
        get?_setAll_congr fun _ => get?_setAll_of_notMem _ _ name here
      _ = ((env.setAll second).setAll first).get? name :=
        (get?_setAll_of_notMem _ _ name here).symm

end Environment

/-! ## Statements that keep off each other -/

/-- No target of the first statement occurs in the second, neither as a target nor as a
variable that is read. -/
def Stmt.KeepsOff (a b : Stmt) : Prop :=
  ∀ name ∈ (Node.stmt a).targets, name ∉ (Node.stmt b).targets ∧ name ∉ (Node.stmt b).reads

section

variable [Arithmetic]

/-- The writes that a statement makes on an environment. -/
def Stmt.writes (stmt : Stmt) (env : Environment) : List (String × Binary64) :=
  Access.written (stmt.dialogue.transcript env)

theorem Stmt.state_run (stmt : Stmt) (env : Environment) :
    (stmt.run env).state = env.setAll (stmt.writes env) := by
  rw [stmt.run_eq_hold]
  exact stmt.dialogue.state_hold env

/-- A statement does not see the bindings of names that it does not read. -/
theorem Stmt.alike_setAll (stmt : Stmt) (env : Environment) {bindings : List (String × Binary64)}
    (unread : ∀ name ∈ bindings.map Prod.fst, name ∉ (Node.stmt stmt).reads) :
    (stmt.run (env.setAll bindings)).result = (stmt.run env).result ∧
      stmt.writes (env.setAll bindings) = stmt.writes env := by
  have agree : ∀ name ∈ Access.exposed (stmt.dialogue.transcript env),
      (env.setAll bindings).get? name = env.get? name := by
    intro name exposed
    have read := (stmt.asked_sublist env).subset (Access.exposed_subset_asked _ exposed)
    exact env.get?_setAll_of_notMem bindings name fun bound => unread name bound read
  obtain ⟨accesses, answer, -⟩ := stmt.dialogue.hold_of_agree env (env.setAll bindings) agree
  rw [stmt.run_eq_hold, stmt.run_eq_hold, Stmt.writes, accesses]
  exact ⟨answer, rfl⟩

/-- If the first of two statements keeps off the second, each does what it would do alone. -/
theorem Stmt.run_pair {a b : Stmt} (keepsOff : a.KeepsOff b) (env : Environment) :
    (((Stmt.block [a, b]).run env).result = .ok () ↔
      (a.run env).result = .ok () ∧ (b.run env).result = .ok ()) ∧
    (((Stmt.block [a, b]).run env).result = .ok () →
      ((Stmt.block [a, b]).run env).state = (env.setAll (a.writes env)).setAll (b.writes env)) := by
  have unread : ∀ name ∈ (a.writes env).map Prod.fst, name ∉ (Node.stmt b).reads :=
    fun name written => (keepsOff name ((a.written_sublist env).subset written)).2
  have pair : (Stmt.block [a, b]).run env = (a.run env).andThen b.run := by
    rw [Stmt.run_block, runAll_cons]
    rfl
  obtain ⟨result, writes⟩ := b.alike_setAll env unread
  rw [← a.state_run] at result writes
  rw [pair, Outcome.andThen]
  cases first : (a.run env).result with
  | error err => simp [first]
  | ok _ =>
    simp only [true_and]
    rw [result]
    refine ⟨Iff.rfl, fun _ => ?_⟩
    rw [b.state_run, writes, a.state_run]

end

/-- Two statements of which no target of one occurs in the other may be exchanged.  In either
order they succeed, or in neither, and if they do the final bindings are the same. -/
theorem run_block_comm {a b : Stmt} (left : a.KeepsOff b) (right : b.KeepsOff a)
    (env : Environment) :
    (((Stmt.block [a, b]).run env).result = .ok () ↔
      ((Stmt.block [b, a]).run env).result = .ok ()) ∧
    (((Stmt.block [a, b]).run env).result = .ok () →
      ((Stmt.block [a, b]).run env).state.bindings =
        ((Stmt.block [b, a]).run env).state.bindings) := by
  obtain ⟨succeeds, state⟩ := Stmt.run_pair left env
  obtain ⟨succeeds', state'⟩ := Stmt.run_pair right env
  have either : ((Stmt.block [a, b]).run env).result = .ok () ↔
      ((Stmt.block [b, a]).run env).result = .ok () := by
    rw [succeeds, succeeds', and_comm]
  have apart : ∀ name ∈ (a.writes env).map Prod.fst, name ∉ (b.writes env).map Prod.fst :=
    fun name written other => (left name ((a.written_sublist env).subset written)).1
      ((b.written_sublist env).subset other)
  refine ⟨either, fun ok => ?_⟩
  rw [state ok, state' (either.mp ok), env.setAll_comm apart]

/-- A branch and a block that read the same name and write different ones.  Each finds its
own targets bound by itself only. -/
theorem run_block_comm_sharedRead :
    let a : Stmt := .conditional .equals (.var ⟨"x"⟩) (.var ⟨"y"⟩)
      (.block [.assign ⟨"p"⟩ (.var ⟨"x"⟩), .assign ⟨"y"⟩ (.var ⟨"p"⟩)]) none
    let b : Stmt := .block [.assign ⟨"q"⟩ (.var ⟨"x"⟩), .assign ⟨"r"⟩ (.var ⟨"q"⟩)]
    let env := (Environment.empty.set "x" ⟨1⟩).set "y" ⟨1⟩
    a.KeepsOff b ∧ b.KeepsOff a ∧
    ((Stmt.block [a, b]).run env).result = .ok () ∧ ((Stmt.block [b, a]).run env).result = .ok () ∧
    ((Stmt.block [a, b]).run env).state.bindings =
      ((Stmt.block [b, a]).run env).state.bindings := by
  intro a b env
  have targets : (Node.stmt a).targets = ["p", "y"] ∧ (Node.stmt b).targets = ["q", "r"] := by
    simp [a, b, Node.targets, Node.walk_eq, Node.below, Node.children, List.filterMap,
      Node.targetName?]
  have reads : (Node.stmt a).reads = ["x", "y", "x", "p"] ∧ (Node.stmt b).reads = ["x", "q"] := by
    simp [a, b, Node.reads_block, Node.reads_assign, Node.reads_conditional, Expr.names]
  have left : a.KeepsOff b := by simp [Stmt.KeepsOff, targets, reads]
  have right : b.KeepsOff a := by simp [Stmt.KeepsOff, targets, reads]
  have equal : Binary64.same ⟨1⟩ ⟨1⟩ = true := by decide
  have ok : ((Stmt.block [a, b]).run env).result = .ok () := by
    rw [Stmt.run_eq_hold]
    simp [a, b, env, Stmt.dialogue, Stmt.dialogueList, Expr.dialogue, Dialogue.bind, Dialogue.hold,
      Held.outcome, Context.read, Context.write, Environment.get?_set, Comparison.holds, equal]
  obtain ⟨either, same⟩ := run_block_comm left right env
  exact ⟨left, right, ok, either.mp ok, same ok⟩

end Abacus
