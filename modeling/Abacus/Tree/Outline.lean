import Abacus.Layout.Script
import Abacus.Tree.Node

/-!
# Outlines

An outline shows a tree with one node to a line, each child under its parent
and two spaces further in, with its role in front.  Names are written as they
are, so a name with a line break continues on a new line of its own.
-/

namespace Abacus

/-- Something to be outlined. -/
inductive OutlineTask where
  /-- A step of the script. -/
  | step (s : Step)
  /-- The outline of a node, below its parent if it has a role. -/
  | node (role : Option Role) (n : Node)

namespace OutlineTask

/-- What stands in front of a node. -/
def lead : Option Role → String
  | none => ""
  | some role => role.name ++ ": "

/-- A bound on the tasks that a task unfolds into. -/
def cost : OutlineTask → Nat
  | .step _ => 1
  | .node _ n => 4 * n.size

/-- A bound on the tasks that a list of tasks unfolds into. -/
def totalCost (tasks : List OutlineTask) : Nat := total cost tasks

@[simp] theorem totalCost_nil : totalCost [] = 0 := rfl

@[simp] theorem totalCost_cons (t : OutlineTask) (ts : List OutlineTask) :
    totalCost (t :: ts) = t.cost + totalCost ts := by
  simp [totalCost]

@[simp] theorem totalCost_append (ss ts : List OutlineTask) :
    totalCost (ss ++ ts) = totalCost ss + totalCost ts := by
  simp [totalCost]

/-- The outline of the children of a node. -/
def ofChildren (children : List (Role × Node)) : List OutlineTask :=
  children.map fun (role, child) => .node (some role) child

theorem totalCost_ofChildren (children : List (Role × Node)) :
    totalCost (ofChildren children) = 4 * Node.totalSize (children.map Prod.snd) := by
  induction children with
  | nil => rfl
  | cons child children ih =>
    have split : ofChildren (child :: children) =
        .node (some child.1) child.2 :: ofChildren children := rfl
    rw [split, totalCost_cons, ih]
    simp [cost]
    omega

theorem totalCost_below (n : Node) : totalCost (ofChildren n.children) + 4 = 4 * n.size := by
  have := n.totalSize_below
  rw [totalCost_ofChildren]
  unfold Node.below at this
  omega

end OutlineTask

/-- Unfolds tasks into a script.  The steps so far come last first. -/
def outlineScriptFrom : List OutlineTask → List Step → Script
  | [], done => done.reverse
  | .step s :: rest, done => outlineScriptFrom rest (s :: done)
  | .node role n :: rest, done =>
    outlineScriptFrom (OutlineTask.ofChildren n.children ++ .step .dedent :: rest)
      (.indent "  " :: .write (OutlineTask.lead role ++ n.summary ++ "\n") :: done)
termination_by tasks => OutlineTask.totalCost tasks
decreasing_by
  · simp [OutlineTask.cost]
  · have := OutlineTask.totalCost_below n
    simp [OutlineTask.cost]
    omega

/-- The script of a single task. -/
def OutlineTask.script (task : OutlineTask) : Script := outlineScriptFrom [task] []

/-- The script that writes the outline of a node. -/
def Node.outlineScript (n : Node) : Script := outlineScriptFrom [.node none n] []

/-- The outline of a node. -/
def Node.outline (n : Node) : String := n.outlineScript.text

/-- Writes the outline of a node. -/
def Writer.writeOutline (w : Writer) (n : Node) : Performance := n.outlineScript.perform w

/-! ## The recursive reading -/

/-- Tasks are unfolded one after the other, after the steps so far. -/
theorem outlineScriptFrom_eq (tasks : List OutlineTask) (done : List Step) :
    outlineScriptFrom tasks done = done.reverse ++ tasks.flatMap OutlineTask.script := by
  induction cost : OutlineTask.totalCost tasks using Nat.strongRecOn generalizing tasks done with
  | ind k ih =>
    subst cost
    match tasks with
    | [] => simp [outlineScriptFrom]
    | .step s :: rest =>
      rw [outlineScriptFrom, ih _ (by simp [OutlineTask.cost]) _ _ rfl]
      simp [OutlineTask.script, outlineScriptFrom]
    | .node role n :: rest =>
      have smaller := OutlineTask.totalCost_below n
      rw [outlineScriptFrom, ih _ (by simp [OutlineTask.cost]; omega) _ _ rfl]
      simp only [List.flatMap_append, List.flatMap_cons]
      rw [OutlineTask.script.eq_def (.node role n), outlineScriptFrom,
        ih _ (by simp [OutlineTask.cost]; omega) _ _ rfl]
      simp

/-- The script of a node: its line, and further in the scripts of its children. -/
theorem OutlineTask.script_node (role : Option Role) (n : Node) :
    (OutlineTask.node role n).script =
      [.write (lead role ++ n.summary ++ "\n"), .indent "  "] ++
        (ofChildren n.children).flatMap script ++ [.dedent] := by
  rw [script, outlineScriptFrom, outlineScriptFrom_eq]
  simp [script, outlineScriptFrom]

end Abacus
