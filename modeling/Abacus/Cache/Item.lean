import Abacus.Cache.Load

/-!
# Items of the cache

Besides whole trees the cache takes their parts: operators, constants,
variables, and what the variants of expressions and statements hold.  An `Item`
is any of these, and a `Form` says which of them to expect.
-/

namespace Abacus

/-- What can be stored and loaded by itself. -/
inductive Item where
  | operator (op : Operator)
  | comparison (op : Comparison)
  | constant (c : Constant)
  | var (v : Variable)
  | expr (e : Expr)
  /-- What the variant of an expression holds. -/
  | exprContent (e : Expr)
  | stmt (s : Stmt)
  /-- What the variant of a statement holds. -/
  | stmtContent (s : Stmt)

/-- The kinds of items that can be asked for. -/
inductive Form where
  | operator
  | comparison
  | constant
  | var
  | expr
  | binary
  | stmt
  | assignment
  | block
  | conditional
  deriving DecidableEq

/-- Loads an item of the given form. -/
def Form.load (form : Form) (v : Json) : Except LoadError Item :=
  match form with
  | .operator => Item.operator <$> loadOperator v
  | .comparison => Item.comparison <$> loadComparison v
  | .constant => Item.constant <$> loadConstant v
  | .var => Item.var <$> loadVariable v
  | .expr => Item.expr <$> loadExpr v
  | .binary => Item.exprContent <$> loadBinary v
  | .stmt => Item.stmt <$> loadStmt v
  | .assignment => Item.stmtContent <$> loadAssignment v
  | .block => Item.stmtContent <$> loadBlock v
  | .conditional => Item.stmtContent <$> loadConditional v

namespace Item

/-- The stored form of an item. -/
def store : Item → Json
  | .operator op => op.store
  | .comparison op => op.store
  | .constant c => c.store
  | .var v => v.store
  | .expr e => e.store
  | .exprContent e => e.storeContent
  | .stmt s => s.store
  | .stmtContent s => s.storeContent

/-- The shape of an item. -/
def datum : Item → Datum
  | .operator op => op.datum
  | .comparison op => op.datum
  | .constant c => c.datum
  | .var v => v.datum
  | .expr e => e.datum
  | .exprContent e => e.content
  | .stmt s => s.datum
  | .stmtContent s => s.content

end Item

/-- Loads the stored form of a node of the same family. -/
def Node.reload (n : Node) : Except LoadError Node :=
  match n with
  | .expr e => Node.expr <$> loadExpr e.store
  | .stmt s => Node.stmt <$> loadStmt s.store
  | .var v => Node.var <$> loadVariable v.store

end Abacus
