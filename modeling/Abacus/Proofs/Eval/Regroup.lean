import Mathlib.Logic.Relation
import Abacus.Proofs.Eval.Dialogue

/-!
# Blocks only group

Blocks say which statements belong together, and a run does not see them.  A block
inside a block can be spliced, a block of one statement is that statement, and an
absent else branch is an empty block.  Any number of such steps, forwards and
backwards and at any depth, relates statements that run alike (`Regroups`).

A step does not change the dialogue of a statement (`Regroup.dialogue_eq`).  Joining
dialogues is associative with the finished one as its unit, and that is all that the
steps at the root need.  Below the root the dialogue of a statement is made from those
of its parts.  As a run is its dialogue held with the context, statements with the
same dialogue run alike on every context, whatever its reads do.
-/

namespace Abacus

/-! ## Steps -/

/-- One step of regrouping, at the root or below it. -/
inductive Regroup : Stmt → Stmt → Prop where
  /-- The statements of a block take its place in the block around it.  An empty block
  is dropped. -/
  | splice (before ss after : List Stmt) :
    Regroup (.block (before ++ .block ss :: after)) (.block (before ++ (ss ++ after)))
  /-- A block of one statement is that statement. -/
  | unwrap (s : Stmt) : Regroup (.block [s]) s
  /-- An absent else branch is an empty block. -/
  | fillElse (op : Comparison) (l r : Expr) (t : Stmt) :
    Regroup (.conditional op l r t none) (.conditional op l r t (some (.block [])))
  | inBlock (before after : List Stmt) {s t : Stmt} : Regroup s t →
    Regroup (.block (before ++ s :: after)) (.block (before ++ t :: after))
  | inTrue (op : Comparison) (l r : Expr) (f : Option Stmt) {s t : Stmt} : Regroup s t →
    Regroup (.conditional op l r s f) (.conditional op l r t f)
  | inFalse (op : Comparison) (l r : Expr) (t : Stmt) {s f : Stmt} : Regroup s f →
    Regroup (.conditional op l r t (some s)) (.conditional op l r t (some f))

/-- Statements that differ by steps of regrouping, in either direction. -/
def Regroups : Stmt → Stmt → Prop := Relation.EqvGen Regroup

/-! ## Joining dialogues -/

namespace Dialogue

variable {α β γ : Type}

theorem bind_assoc (d : Dialogue α) (more : α → Dialogue β) (last : β → Dialogue γ) :
    (d.bind more).bind last = d.bind fun a => (more a).bind last := by
  induction d with
  | done a => rfl
  | ask name next ih => exact congrArg (ask name) (funext ih)
  | tell name x next ih => exact congrArg (tell name x) ih
  | report event next ih => exact congrArg (report event) ih

theorem bind_done (d : Dialogue α) : d.bind done = d := by
  induction d with
  | done a => rfl
  | ask name next ih => exact congrArg (ask name) (funext ih)
  | tell name x next ih => exact congrArg (tell name x) ih
  | report event next ih => exact congrArg (report event) ih

end Dialogue

section

variable [Arithmetic]

theorem Stmt.dialogueList_append (ss ts : List Stmt) :
    Stmt.dialogueList (ss ++ ts) = (Stmt.dialogueList ss).bind fun _ => Stmt.dialogueList ts := by
  induction ss with
  | nil =>
    rw [Stmt.dialogueList]
    rfl
  | cons s ss ih =>
    rw [List.cons_append, Stmt.dialogueList, Stmt.dialogueList, ih, Dialogue.bind_assoc]

/-- A step of regrouping does not change what is asked and told. -/
theorem Regroup.dialogue_eq {s t : Stmt} (step : Regroup s t) : s.dialogue = t.dialogue := by
  induction step with
  | splice before ss after =>
    rw [Stmt.dialogue, Stmt.dialogue, Stmt.dialogueList_append, Stmt.dialogueList_append,
      Stmt.dialogueList_append, Stmt.dialogueList, Stmt.dialogue]
  | unwrap s =>
    have nothing : (fun _ => Stmt.dialogueList []) = (Dialogue.done : Unit → Dialogue Unit) := rfl
    rw [Stmt.dialogue, Stmt.dialogueList, nothing, Dialogue.bind_done]
  | fillElse op l r t =>
    have empty : Stmt.dialogueOption (some (.block [])) = Stmt.dialogueOption none := rfl
    rw [Stmt.dialogue, Stmt.dialogue, empty]
  | inBlock before after _ ih =>
    rw [Stmt.dialogue, Stmt.dialogue, Stmt.dialogueList_append, Stmt.dialogueList_append,
      Stmt.dialogueList, Stmt.dialogueList, ih]
  | inTrue op l r f _ ih => rw [Stmt.dialogue, Stmt.dialogue, ih]
  | inFalse op l r t _ ih =>
    rw [Stmt.dialogue, Stmt.dialogue, Stmt.dialogueOption, Stmt.dialogueOption, ih]

theorem Regroups.dialogue_eq {s t : Stmt} (regrouped : Regroups s t) :
    s.dialogue = t.dialogue := by
  induction regrouped with
  | rel s t step => exact step.dialogue_eq
  | refl s => rfl
  | symm s t _ ih => exact ih.symm
  | trans s t u _ _ first second => exact first.trans second

end

/-- Regrouping blocks does not change a run.  On every context it has the same result,
leaves the same context, tells the same events and makes the same accesses. -/
theorem run_eq_of_regroups {s t : Stmt} (regrouped : Regroups s t) {σ : Type} [Context σ] (c : σ) :
    s.run c = t.run c ∧
    (s.run (Journal.start c)).state.accesses = (t.run (Journal.start c)).state.accesses := by
  have same := regrouped.dialogue_eq
  rw [s.run_eq_hold, t.run_eq_hold, s.accesses_run_journal, t.accesses_run_journal, same]
  exact ⟨rfl, rfl⟩

/-- Blocks around a statement whose second read is refused, and a branch behind it. -/
theorem run_eq_of_regroups_refused :
    let first : Stmt := .assign ⟨"x"⟩ (.var ⟨"y"⟩)
    let second : Stmt := .assign ⟨"z"⟩ (.binary .addition (.var ⟨"y"⟩) (.var ⟨"x"⟩))
    let third : Stmt := .assign ⟨"x"⟩ (.var ⟨"z"⟩)
    let s : Stmt := .block [.block [first, .block [.block [], second]],
      .conditional .equals (.var ⟨"x"⟩) (.var ⟨"z"⟩) (.block [third]) none]
    let t : Stmt := .block [first, second,
      .conditional .equals (.var ⟨"x"⟩) (.var ⟨"z"⟩) third (some (.block []))]
    let c : Rehearsal :=
      { environment := Environment.empty.set "y" ⟨1⟩
        refusal := some (1, .undefinedVariable "refused") }
    Regroups s t ∧ (t.run c).result = .error (.undefinedVariable "refused") ∧ s.run c = t.run c ∧
      (s.run (Journal.start c)).state.accesses = (t.run (Journal.start c)).state.accesses := by
  intro first second third s t c
  have regrouped : Regroups s t := by
    have splice := fun before ss after => Relation.EqvGen.rel _ _ (Regroup.splice before ss after)
    refine .trans _ _ _ (splice [] [first, .block [.block [], second]] _) ?_
    refine .trans _ _ _ (splice [first] [.block [], second] _) ?_
    refine .trans _ _ _ (splice [first] [] _) ?_
    refine .trans _ _ _ (.rel _ _ (.inBlock [first, second] [] (.inTrue _ _ _ _ (.unwrap third)))) ?_
    exact .rel _ _ (.inBlock [first, second] [] (.fillElse _ _ _ _))
  have result : (t.run c).result = .error (.undefinedVariable "refused") := by
    rw [t.run_eq_hold]
    simp [t, first, second, c, Stmt.dialogue, Stmt.dialogueList, Expr.dialogue, Dialogue.bind,
      Dialogue.hold, Held.outcome, Context.read, Context.write, Rehearsal.answer, Option.filter]
  exact ⟨regrouped, result, run_eq_of_regroups regrouped c⟩

end Abacus
