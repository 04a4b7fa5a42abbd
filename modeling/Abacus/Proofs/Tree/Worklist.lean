import Mathlib.Data.List.Perm.Basic
import Mathlib.Logic.Function.Iterate
import Abacus.Tree.Dismantle

/-!
# The loop that takes values apart

Taking a tree apart is a loop over a stack (`Worklist.turn`).  It is the same loop for
expressions and for statements, and only what is detached in a turn differs.  All that has
to be known of that is how the parts *nested* in a value come from those detached from it
(`Worklist.Unnests`).  Three things follow.

* Each turn brings the number of values that are not yet detached down by one, those nested
  in the stack included.  So the loop ends after as many turns (`Worklist.endsAfter`).
* The parts moved so far and those nested in the stack stay the same, in some order
  (`Worklist.moved_turn`).  So in the end the parts moved are the parts nested.
* Every part that was moved is on the stack or has left a husk (`Worklist.Accounted.turn`).
-/

namespace Abacus

/-- The loop that takes values apart, between two turns. -/
structure Worklist (α : Type) where
  /-- The values that are still to be detached, the next one first. -/
  stack : List α
  /-- The parts moved onto the stack so far, the last one first. -/
  moved : List α
  /-- What was left of the values detached so far, the last one first. -/
  husks : List α

namespace Worklist

/-- The loop that takes one value apart, before its first turn. -/
def start {α : Type} (a : α) : Worklist α := ⟨[a], [], []⟩

section

variable {α : Type} (detach : α → α × List α)

/-- One turn: a value is taken off the stack, and the parts detached from it are put on. -/
def turn : Worklist α → Worklist α
  | ⟨[], moved, husks⟩ => ⟨[], moved, husks⟩
  | ⟨a :: stack, moved, husks⟩ =>
    ⟨(detach a).2.reverse ++ stack, (detach a).2.reverse ++ moved, (detach a).1 :: husks⟩

/-- After a number of turns, and not before, the stack is empty, with the given outcome. -/
def EndsAfter (k : Nat) (w : Worklist α) (d : Dismantling α) : Prop :=
  (turn detach)^[k] w = ⟨[], d.moved.reverse, d.husks.reverse⟩ ∧
    ∀ j < k, ((turn detach)^[j] w).stack ≠ []

/-- The parts nested in a value are those detached from it and the parts nested in these. -/
def Unnests (nested : α → List α) : Prop :=
  ∀ a, (nested a).Perm ((detach a).2 ++ (detach a).2.flatMap nested)

/-- A function of the stack, the parts moved and the husks goes through the loop to its end. -/
structure Follows (finish : List α → List α → List α → Dismantling α) : Prop where
  /-- With an empty stack there is nothing to do. -/
  nil : ∀ moved husks, finish [] moved husks = ⟨moved.reverse, husks.reverse⟩
  /-- With a value on the stack, a turn is made. -/
  cons : ∀ a stack moved husks, finish (a :: stack) moved husks =
    finish ((detach a).2.reverse ++ stack) ((detach a).2.reverse ++ moved) ((detach a).1 :: husks)

/-- Every part that was moved is still on the stack or has left a husk, after that of the
value that the loop began with. -/
def Accounted (a : α) (w : Worklist α) : Prop :=
  ∃ detached : List α, w.husks = (detached ++ [a]).map (fun b => (detach b).1) ∧
    (detached ++ w.stack).Perm w.moved

end

section

open scoped List

variable {α : Type} {detach : α → α × List α} {nested : α → List α}

/-- The number of values that are not yet detached, those nested in the stack included. -/
def remaining (nested : α → List α) (w : Worklist α) : Nat :=
  total (fun a => (nested a).length + 1) w.stack

theorem remaining_eq_zero_iff {w : Worklist α} : w.remaining nested = 0 ↔ w.stack = [] := by
  cases stack : w.stack with
  | nil => simp [remaining, stack]
  | cons a rest => simp [remaining, stack]

theorem Unnests.length_eq (unnests : Unnests detach nested) (a : α) :
    (nested a).length = total (fun b => (nested b).length + 1) (detach a).2 := by
  rw [(unnests a).length_eq, List.length_append]
  induction (detach a).2 with
  | nil => rfl
  | cons b parts ih =>
    rw [List.flatMap_cons, List.length_append, List.length_cons, total_cons, ← ih]
    omega

/-- A turn detaches one value. -/
theorem remaining_turn (unnests : Unnests detach nested) {w : Worklist α} (more : w.stack ≠ []) :
    (w.turn detach).remaining nested + 1 = w.remaining nested := by
  obtain ⟨stack, moved, husks⟩ := w
  cases stack with
  | nil => exact absurd rfl more
  | cons a stack =>
    rw [remaining, remaining, turn, total_append, total_reverse, total_cons,
      ← unnests.length_eq a]
    omega

theorem remaining_turns (unnests : Unnests detach nested) {w : Worklist α} {k : Nat}
    (within : k ≤ w.remaining nested) :
    ((turn detach)^[k] w).remaining nested + k = w.remaining nested := by
  induction k with
  | zero => rfl
  | succ k ih =>
    have before := ih (Nat.le_of_succ_le within)
    have more : ((turn detach)^[k] w).stack ≠ [] := by
      intro empty
      rw [remaining_eq_zero_iff.mpr empty] at before
      omega
    have turned := remaining_turn unnests more
    rw [Function.iterate_succ_apply']
    omega

/-- What was moved and what is nested in the stack stay together. -/
theorem moved_turn (unnests : Unnests detach nested) (w : Worklist α) :
    ((w.turn detach).moved ++ (w.turn detach).stack.flatMap nested).Perm
      (w.moved ++ w.stack.flatMap nested) := by
  obtain ⟨stack, moved, husks⟩ := w
  cases stack with
  | nil => exact .refl _
  | cons a stack =>
    -- what is detached is no longer nested in the top, but it was moved now
    have parts := (detach a).2.reverse_perm
    rw [turn, List.flatMap_append, List.flatMap_cons, ← List.append_assoc, ← List.append_assoc]
    refine List.Perm.append_right _ ?_
    calc (detach a).2.reverse ++ moved ++ (detach a).2.reverse.flatMap nested
      _ ~ (detach a).2 ++ moved ++ (detach a).2.flatMap nested :=
        (parts.append_right moved).append (parts.flatMap_right nested)
      _ ~ moved ++ (detach a).2 ++ (detach a).2.flatMap nested :=
        List.perm_append_comm.append_right _
      _ ~ moved ++ nested a := by
        rw [List.append_assoc]
        exact (unnests a).symm.append_left moved

theorem accounted_start (a : α) : Accounted detach a ((start a).turn detach) := by
  refine ⟨[], rfl, ?_⟩
  rw [start, turn, List.nil_append, List.append_nil]

theorem Accounted.turn {a : α} {w : Worklist α} (accounted : Accounted detach a w) :
    Accounted detach a (w.turn detach) := by
  obtain ⟨stack, moved, husks⟩ := w
  cases stack with
  | nil => exact accounted
  | cons b stack =>
    obtain ⟨detached, left, all⟩ := accounted
    refine ⟨b :: detached, congrArg (List.cons (detach b).1) left, ?_⟩
    calc b :: detached ++ ((detach b).2.reverse ++ stack)
      _ ~ (detach b).2.reverse ++ (b :: detached ++ stack) := List.perm_append_comm_assoc _ _ _
      _ ~ (detach b).2.reverse ++ (detached ++ b :: stack) :=
        List.perm_middle.symm.append_left _
      _ ~ (detach b).2.reverse ++ moved := all.append_left _

section

variable {finish : List α → List α → List α → Dismantling α}

theorem Follows.turn (follows : Follows detach finish) (w : Worklist α) :
    finish (w.turn detach).stack (w.turn detach).moved (w.turn detach).husks =
      finish w.stack w.moved w.husks := by
  obtain ⟨stack, moved, husks⟩ := w
  cases stack with
  | nil => rfl
  | cons a stack => exact (follows.cons a stack moved husks).symm

/-- Nothing comes of a value that nothing is detached from. -/
theorem Follows.of_bare (follows : Follows detach finish) {a : α} (bare : detach a = (a, [])) :
    finish [a] [] [] = ⟨[], [a]⟩ := by
  rw [follows.cons, bare, List.reverse_nil, List.append_nil, follows.nil]
  rfl

/-- The loop ends when all is detached, with the outcome of any function that follows it. -/
theorem endsAfter (unnests : Unnests detach nested) (follows : Follows detach finish)
    (w : Worklist α) :
    EndsAfter detach (w.remaining nested) w (finish w.stack w.moved w.husks) := by
  constructor
  · have left := remaining_turns unnests (Nat.le_refl (w.remaining nested))
    have empty := remaining_eq_zero_iff.mp (Nat.add_eq_right.mp left)
    -- the function gives the same before and after a turn, so it tells what the loop ends with
    have outcome := Function.Iterate.rec
      (fun v : Worklist α => finish v.stack v.moved v.husks = finish w.stack w.moved w.husks)
      rfl (fun v same => (follows.turn v).trans same) (w.remaining nested)
    generalize (Worklist.turn detach)^[w.remaining nested] w = last at empty outcome ⊢
    obtain ⟨stack, moved, husks⟩ := last
    cases empty
    rw [← outcome, follows.nil, List.reverse_reverse, List.reverse_reverse]
  · intro j before empty
    have left := remaining_turns unnests (Nat.le_of_lt before)
    rw [remaining_eq_zero_iff.mpr empty] at left
    omega

end

theorem EndsAfter.moved_perm (unnests : Unnests detach nested) {k : Nat} {a : α}
    {d : Dismantling α} (ends : EndsAfter detach k (start a) d) : d.moved ~ nested a := by
  have together := Function.Iterate.rec
    (fun v : Worklist α => v.moved ++ v.stack.flatMap nested ~ [a].flatMap nested)
    (a := start a) (.refl _) (fun v same => (moved_turn unnests v).trans same) k
  rw [ends.1, List.flatMap_nil, List.append_nil, List.flatMap_singleton] at together
  exact d.moved.reverse_perm.symm.trans together

theorem EndsAfter.accounted {k : Nat} {a : α} {d : Dismantling α}
    (ends : EndsAfter detach (k + 1) (start a) d) :
    ∃ detached : List α, detached ~ d.moved ∧
      d.husks = (a :: detached).map fun b => (detach b).1 := by
  have accounted := Function.Iterate.rec (Accounted detach a) (accounted_start a)
    (fun _ => Accounted.turn) k
  rw [← Function.iterate_succ_apply, ends.1] at accounted
  obtain ⟨detached, (left : d.husks.reverse = _), all⟩ := accounted
  rw [List.append_nil] at all
  refine ⟨detached.reverse, detached.reverse_perm.trans (all.trans d.moved.reverse_perm), ?_⟩
  rw [← List.reverse_reverse d.husks, left, ← List.map_reverse, List.reverse_append]
  rfl

end

end Worklist

end Abacus
