import Abacus.Code.Style
import Abacus.Eval.Context
import Abacus.Inspect.Datum
import Abacus.Text.Quoted
import Abacus.Tree.Node

/-!
# Inspection of trees

The shape of trees and of the other values that a user may want to look at.  An
expression or a statement is shown as its variant around its content.
-/

namespace Abacus

/-- A text as a value. -/
def textDatum (text : String) : Datum := .word (quoted text)

/-- The shape of a constant, always on one line. -/
def Constant.datum (c : Constant) : Datum :=
  .word ("Constant(" ++ c.value.text .inspection ++ ")")

/-- The shape of a variable. -/
def Variable.datum (v : Variable) : Datum :=
  .group (.record "Variable") [.labelled "name" (textDatum v.name)]

/-- The shape of an operation. -/
def Operator.datum (op : Operator) : Datum := .word op.label

/-- The shape of a comparison. -/
def Comparison.datum (op : Comparison) : Datum := .word op.label

/-- A value inside its variant. -/
def inVariant (variant : String) (content : Datum) : Datum := .group (.tuple variant) [content]

/-- The shape of what an expression's variant holds. -/
def Expr.content : Expr → Datum
  | .const c => c.datum
  | .var v => v.datum
  | .binary op l r =>
    .group (.record "BinaryExpr")
      [.labelled "operator" op.datum,
       .labelled "lhs" (inVariant l.variant l.content),
       .labelled "rhs" (inVariant r.variant r.content)]

/-- The shape of an expression. -/
def Expr.datum (e : Expr) : Datum := inVariant e.variant e.content

mutual

/-- The shape of what a statement's variant holds. -/
def Stmt.content : Stmt → Datum
  | .assign x e =>
    .group (.record "Assignment") [.labelled "variable" x.datum, .labelled "value" e.datum]
  | .block ss => .group (.record "Block") [.labelled "statements" (.group .list (Stmt.listData ss))]
  | .conditional op l r t f =>
    .group (.record "Conditional")
      [.labelled "operator" op.datum,
       .labelled "lhs" l.datum,
       .labelled "rhs" r.datum,
       .labelled "if_true" (inVariant t.variant t.content),
       .labelled "if_false" (Stmt.optionDatum f)]

/-- The shapes of statements in a list. -/
def Stmt.listData : List Stmt → List Datum
  | [] => []
  | s :: ss => inVariant s.variant s.content :: Stmt.listData ss

/-- The shape of a statement that may be absent. -/
def Stmt.optionDatum : Option Stmt → Datum
  | none => .word "None"
  | some s => inVariant "Some" (inVariant s.variant s.content)

end

/-- The shape of a statement. -/
def Stmt.datum (s : Stmt) : Datum := inVariant s.variant s.content

/-- The shape of a node without its family. -/
def Node.treeDatum : Node → Datum
  | .expr e => e.datum
  | .stmt s => s.datum
  | .var v => v.datum

/-- The name of a node's family. -/
def Node.family : Node → String
  | .expr _ => "Expr"
  | .stmt _ => "Stmt"
  | .var _ => "Variable"

/-- The shape of a node, inside its family. -/
def Node.datum (n : Node) : Datum := inVariant n.family n.treeDatum

/-- The text of a role among inspected values. -/
def Role.datum : Role → Datum
  | .lhs => .word "Lhs"
  | .rhs => .word "Rhs"
  | .ifTrue => .word "IfTrue"
  | .ifFalse => .word "IfFalse"
  | .statement index => inVariant "Statement" (.word (toString index))

/-- The shape of an evaluation error. -/
def EvalError.datum : EvalError → Datum
  | .undefinedVariable name =>
    .group (.record "UndefinedVariable") [.labelled "name" (textDatum name)]

/-- The shape of a code style. -/
def CodeStyle.datum (style : CodeStyle) : Datum :=
  .group (.record "CodegenOptions")
    [.labelled "indent" (textDatum style.indent),
     .labelled "equals_token" (.word style.equals.label)]

/-- The shape of a code generator, which is its style. -/
def CodeStyle.compilerDatum (style : CodeStyle) : Datum :=
  .group (.record "Compiler") [.labelled "options" style.datum]

end Abacus
