import Abacus.Number.Text
import Abacus.Tree.Basic

/-!
# Nodes

A *node* is a place in a program tree: an expression, a statement, or the
variable that an assignment writes.  The target of an assignment is a node of
its own family, so that it is told apart from a variable that is read.

Every node has a kind, attributes of its own, and children.  Each child stands
in a *role*.  The children of a node come in the order in which the program
would be read aloud.

`walk` lists a node and all its descendants, parents before children.  It keeps
a list of the nodes that are still to be visited, so a deep tree costs memory
and not recursion depth.
-/

namespace Abacus

/-- The place of a child below its parent. -/
inductive Role where
  | lhs
  | rhs
  | ifTrue
  | ifFalse
  | statement (index : Nat)
  deriving DecidableEq

/-- The name of a role in an outline. -/
def Role.name : Role → String
  | .lhs => "lhs"
  | .rhs => "rhs"
  | .ifTrue => "ifTrue"
  | .ifFalse => "ifFalse"
  | .statement index => toString index

/-- A place in a program tree. -/
inductive Node where
  | expr (e : Expr)
  | stmt (s : Stmt)
  | var (v : Variable)
  deriving DecidableEq

namespace Node

/-- The children of a node with their roles, first to last. -/
def children : Node → List (Role × Node)
  | .expr (.const _) => []
  | .expr (.var _) => []
  | .expr (.binary _ l r) => [(.lhs, .expr l), (.rhs, .expr r)]
  | .stmt (.assign x e) => [(.lhs, .var x), (.rhs, .expr e)]
  | .stmt (.block ss) => ss.zipIdx.map fun (s, i) => (.statement i, .stmt s)
  | .stmt (.conditional _ l r t f) =>
    [(.lhs, .expr l), (.rhs, .expr r), (.ifTrue, .stmt t)] ++
      (f.map fun s => (.ifFalse, .stmt s)).toList
  | .var _ => []

/-- The name of a node's kind. -/
def kind : Node → String
  | .expr (.const _) => "ConstantNode"
  | .expr (.var _) => "VariableNode"
  | .expr (.binary ..) => "BinaryExpressionNode"
  | .stmt (.assign ..) => "AssignmentNode"
  | .stmt (.block _) => "BlockNode"
  | .stmt (.conditional ..) => "ConditionalNode"
  | .var _ => "VariableNode"

/-- What a node carries besides its children.  Empty if that is nothing. -/
def attributes : Node → String
  | .expr (.const c) => "(value=" ++ c.value.text .inspection ++ ")"
  | .expr (.var v) => "(name=" ++ v.name ++ ")"
  | .expr (.binary op ..) => "(operator=" ++ op.name ++ ")"
  | .stmt (.assign ..) => ""
  | .stmt (.block _) => ""
  | .stmt (.conditional op ..) => "(operator=" ++ op.name ++ ")"
  | .var v => "(name=" ++ v.name ++ ")"

/-- A node without its children, on one line if its names are. -/
def summary (n : Node) : String := n.kind ++ n.attributes

/-- The node at the end of a path of child indices, if the path stays in the tree. -/
def at? : Node → List Nat → Option Node
  | n, [] => some n
  | n, i :: path =>
    match n.children[i]? with
    | some (_, child) => child.at? path
    | none => none

/-! ## Walking -/

/-- The number of nodes in the tree below a node, itself included. -/
def size : Node → Nat
  | .expr e => e.size
  | .stmt s => s.size
  | .var _ => 1

/-- The number of nodes in a list of trees. -/
def totalSize (ns : List Node) : Nat := total size ns

@[simp] theorem totalSize_nil : totalSize [] = 0 := rfl

@[simp] theorem totalSize_cons (n : Node) (ns : List Node) :
    totalSize (n :: ns) = n.size + totalSize ns := by
  simp [totalSize]

@[simp] theorem totalSize_append (ms ns : List Node) :
    totalSize (ms ++ ns) = totalSize ms + totalSize ns := by
  simp [totalSize]

/-- The children of a node, without their roles. -/
def below (n : Node) : List Node := n.children.map Prod.snd

theorem totalSize_map_stmt (ss : List Stmt) : totalSize (ss.map .stmt) = Stmt.sizeList ss := by
  induction ss with
  | nil => rfl
  | cons s ss ih => simp [size, Stmt.sizeList, ih]

theorem below_block (ss : List Stmt) : (Node.stmt (.block ss)).below = ss.map .stmt := by
  have forget : (fun p : Stmt × Nat => Node.stmt p.1) = Node.stmt ∘ Prod.fst := rfl
  simp only [below, children, List.map_map, Function.comp_def]
  rw [forget, ← List.map_map, List.zipIdx_map_fst]

/-- A node is one more than its children. -/
theorem totalSize_below (n : Node) : totalSize n.below + 1 = n.size := by
  match n with
  | .expr (.const _) => rfl
  | .expr (.var _) => rfl
  | .expr (.binary _ l r) =>
    simp only [below, children, List.map_cons, List.map_nil, totalSize_cons, totalSize_nil, size,
      Expr.size]
    omega
  | .stmt (.assign x e) =>
    simp only [below, children, List.map_cons, List.map_nil, totalSize_cons, totalSize_nil, size,
      Stmt.size]
    omega
  | .stmt (.block ss) =>
    rw [below_block, totalSize_map_stmt]
    simp only [size, Stmt.size]
    omega
  | .stmt (.conditional _ l r t none) =>
    simp only [below, children, Option.map_none, Option.toList_none, List.append_nil,
      List.map_cons, List.map_nil, totalSize_cons, totalSize_nil, size, Stmt.size,
      Stmt.sizeOption]
    omega
  | .stmt (.conditional _ l r t (some f)) =>
    simp only [below, children, Option.map_some, Option.toList_some, List.cons_append,
      List.nil_append, List.map_cons, List.map_nil, totalSize_cons, totalSize_nil, size,
      Stmt.size, Stmt.sizeOption]
    omega
  | .var _ => rfl

/-- Visiting a node trades it for its children, which are smaller. -/
theorem totalSize_below_append_lt (n : Node) (ns : List Node) :
    totalSize (n.below ++ ns) < totalSize (n :: ns) := by
  have := totalSize_below n
  rw [totalSize_append, totalSize_cons]
  omega

/-- Visits a list of trees in turn.  The nodes seen so far come last first. -/
def walkFrom : List Node → List Node → List Node
  | [], seen => seen.reverse
  | n :: rest, seen => walkFrom (n.below ++ rest) (n :: seen)
termination_by agenda => totalSize agenda
decreasing_by exact totalSize_below_append_lt n rest

/-- A node and all its descendants, parents before children and earlier
children before later ones. -/
def walk (n : Node) : List Node := walkFrom [n] []

/-- What has been seen does not change what is visited. -/
theorem walkFrom_seen (ns seen : List Node) :
    walkFrom ns seen = seen.reverse ++ walkFrom ns [] := by
  induction size : totalSize ns using Nat.strongRecOn generalizing ns seen with
  | ind k ih =>
    cases ns with
    | nil => simp [walkFrom]
    | cons n ns =>
      have smaller := size ▸ totalSize_below_append_lt n ns
      rw [walkFrom, walkFrom.eq_def (n :: ns), ih _ smaller _ _ rfl]
      dsimp only
      rw [ih _ smaller _ [n] rfl]
      simp

/-- A list of trees is visited tree by tree. -/
theorem walkFrom_append (ms ns : List Node) :
    walkFrom (ms ++ ns) [] = walkFrom ms [] ++ walkFrom ns [] := by
  induction size : totalSize ms using Nat.strongRecOn generalizing ms with
  | ind k ih =>
    cases ms with
    | nil => simp [walkFrom]
    | cons m ms =>
      have smaller := size ▸ totalSize_below_append_lt m ms
      rw [List.cons_append, walkFrom, walkFrom.eq_def (m :: ms)]
      dsimp only
      rw [← List.append_assoc, walkFrom_seen, walkFrom_seen _ [m], ih _ smaller _ rfl]
      simp

theorem walkFrom_eq_flatMap (ns : List Node) : walkFrom ns [] = ns.flatMap walk := by
  induction ns with
  | nil => simp [walkFrom]
  | cons n ns ih => rw [← List.singleton_append, walkFrom_append, ih]; simp [walk]

/-- A walk is the node and then the walks of its children. -/
theorem walk_eq (n : Node) : n.walk = n :: n.below.flatMap walk := by
  rw [walk, walkFrom, walkFrom_seen, List.append_nil, walkFrom_eq_flatMap]
  rfl

end Node

end Abacus
