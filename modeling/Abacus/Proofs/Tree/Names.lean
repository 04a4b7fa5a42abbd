import Abacus.Tree.Node

/-!
# The names in a tree

All names in the order in which they stand in the tree, with repetitions.  What
is asked of the names of a tree is asked of the names of its parts.

The names that a tree *reads* are those of its variable expressions, in the order
in which a walk visits them (`Node.reads`).  The targets of assignments are not
among them (`Node.targets`).  In an expression every name is read.
-/

namespace Abacus

/-- The names in an expression. -/
def Expr.names : Expr → List String
  | .const _ => []
  | .var v => [v.name]
  | .binary _ l r => l.names ++ r.names

mutual

/-- The names in a statement, those of targets among them. -/
def Stmt.names : Stmt → List String
  | .assign x e => x.name :: e.names
  | .block ss => Stmt.namesList ss
  | .conditional _ l r t f => l.names ++ (r.names ++ (t.names ++ Stmt.namesOption f))

/-- The names in a list of statements. -/
def Stmt.namesList : List Stmt → List String
  | [] => []
  | s :: ss => s.names ++ Stmt.namesList ss

/-- The names in an optional statement. -/
def Stmt.namesOption : Option Stmt → List String
  | none => []
  | some s => s.names

end

theorem Stmt.namesList_eq (ss : List Stmt) : Stmt.namesList ss = ss.flatMap Stmt.names := by
  induction ss with
  | nil => rfl
  | cons s ss ih => rw [Stmt.namesList, ih, List.flatMap_cons]

section

variable {p : String → Prop}

theorem Expr.forall_names_binary {op : Operator} {l r : Expr} :
    (∀ name ∈ (Expr.binary op l r).names, p name) ↔
      (∀ name ∈ l.names, p name) ∧ ∀ name ∈ r.names, p name :=
  List.forall_mem_append

theorem Stmt.forall_names_assign {x : Variable} {e : Expr} :
    (∀ name ∈ (Stmt.assign x e).names, p name) ↔ p x.name ∧ ∀ name ∈ e.names, p name := by
  rw [Stmt.names]
  exact List.forall_mem_cons

theorem Stmt.forall_names_block {ss : List Stmt} :
    (∀ name ∈ (Stmt.block ss).names, p name) ↔ ∀ s ∈ ss, ∀ name ∈ s.names, p name := by
  rw [Stmt.names, Stmt.namesList_eq]
  exact List.forall_mem_flatMap

theorem Stmt.forall_names_conditional {op : Comparison} {l r : Expr} {t : Stmt} {f : Option Stmt} :
    (∀ name ∈ (Stmt.conditional op l r t f).names, p name) ↔
      (∀ name ∈ l.names, p name) ∧ (∀ name ∈ r.names, p name) ∧ (∀ name ∈ t.names, p name) ∧
        ∀ s ∈ f, ∀ name ∈ s.names, p name := by
  rw [Stmt.names, List.forall_mem_append, List.forall_mem_append, List.forall_mem_append]
  cases f with
  | none => simp [Stmt.namesOption]
  | some f => simp [Stmt.namesOption]

end

/-! ## The names that are read -/

namespace Node

/-- The name of a node that is a variable expression. -/
def readName? : Node → Option String
  | .expr (.var v) => some v.name
  | _ => none

/-- The name of a node that is the target of an assignment. -/
def targetName? : Node → Option String
  | .var v => some v.name
  | _ => none

/-- The names of the variable expressions that a walk visits, in its order. -/
def reads (n : Node) : List String := n.walk.filterMap readName?

/-- The names of the targets that a walk visits, in its order. -/
def targets (n : Node) : List String := n.walk.filterMap targetName?

theorem reads_eq (n : Node) : n.reads = n.readName?.toList ++ n.below.flatMap reads := by
  have first : [n].filterMap readName? = n.readName?.toList := by
    cases name : n.readName? <;> simp [name]
  rw [reads, walk_eq, ← List.singleton_append, List.filterMap_append, List.filterMap_flatMap, first]
  rfl

/-- All names in an expression are read. -/
theorem reads_expr (e : Expr) : (Node.expr e).reads = e.names := by
  induction e with
  | const c =>
    rw [reads_eq]
    rfl
  | var v =>
    rw [reads_eq]
    rfl
  | binary op l r ihl ihr =>
    have below : (Node.expr (.binary op l r)).below = [.expr l, .expr r] := rfl
    rw [reads_eq, below, List.flatMap_cons, List.flatMap_singleton, ihl, ihr]
    rfl

theorem reads_assign (x : Variable) (e : Expr) : (Node.stmt (.assign x e)).reads = e.names := by
  have below : (Node.stmt (.assign x e)).below = [.var x, .expr e] := rfl
  have target : (Node.var x).reads = [] := by
    rw [reads_eq]
    rfl
  rw [reads_eq, below, List.flatMap_cons, List.flatMap_singleton, target, reads_expr]
  rfl

theorem reads_block (ss : List Stmt) :
    (Node.stmt (.block ss)).reads = ss.flatMap fun s => (Node.stmt s).reads := by
  rw [reads_eq, below_block, List.flatMap_map]
  rfl

theorem reads_conditional (op : Comparison) (l r : Expr) (t : Stmt) (f : Option Stmt) :
    (Node.stmt (.conditional op l r t f)).reads = l.names ++ (r.names ++ ((Node.stmt t).reads ++
      f.toList.flatMap fun s => (Node.stmt s).reads)) := by
  have below : (Node.stmt (.conditional op l r t f)).below =
      .expr l :: .expr r :: .stmt t :: f.toList.map .stmt := by
    cases f <;> rfl
  rw [reads_eq, below, List.flatMap_cons, List.flatMap_cons, List.flatMap_cons, List.flatMap_map,
    reads_expr, reads_expr]
  rfl

end Node

end Abacus
