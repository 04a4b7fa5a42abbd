import Abacus.Cache.Json
import Abacus.Tree.Node

/-!
# Storing trees

An expression or a statement is stored as an object with one key, its variant,
that holds its content.  A constant is stored as its number, so NaN and the
infinities are lost.
-/

namespace Abacus

/-- The stored form of a constant. -/
def Constant.store (c : Constant) : Json := .ofBinary64 c.value

/-- The stored form of a variable. -/
def Variable.store (v : Variable) : Json := .object [("name", .string v.name)]

/-- The stored form of an operation. -/
def Operator.store (op : Operator) : Json := .string op.label

/-- The stored form of a comparison. -/
def Comparison.store (op : Comparison) : Json := .string op.label

/-- The stored form of what an expression's variant holds. -/
def Expr.storeContent : Expr → Json
  | .const c => c.store
  | .var v => v.store
  | .binary op l r =>
    .object
      [("operator", op.store),
       ("lhs", .object [(l.variant, l.storeContent)]),
       ("rhs", .object [(r.variant, r.storeContent)])]

/-- The stored form of an expression. -/
def Expr.store (e : Expr) : Json := .object [(e.variant, e.storeContent)]

mutual

/-- The stored form of what a statement's variant holds. -/
def Stmt.storeContent : Stmt → Json
  | .assign x e => .object [("variable", x.store), ("value", e.store)]
  | .block ss => .object [("statements", .array (Stmt.storeList ss))]
  | .conditional op l r t f =>
    .object
      [("operator", op.store),
       ("lhs", l.store),
       ("rhs", r.store),
       ("if_true", .object [(t.variant, t.storeContent)]),
       ("if_false", Stmt.storeOption f)]

/-- The stored forms of statements in a list. -/
def Stmt.storeList : List Stmt → List Json
  | [] => []
  | s :: ss => .object [(s.variant, s.storeContent)] :: Stmt.storeList ss

/-- The stored form of a statement that may be absent. -/
def Stmt.storeOption : Option Stmt → Json
  | none => .null
  | some s => .object [(s.variant, s.storeContent)]

end

/-- The stored form of a statement. -/
def Stmt.store (s : Stmt) : Json := .object [(s.variant, s.storeContent)]

/-- The stored form of a node. -/
def Node.store : Node → Json
  | .expr e => e.store
  | .stmt s => s.store
  | .var v => v.store

end Abacus
