import Abacus.Number.Binary64

/-!
# Program trees

A program is a tree of statements over expressions.  There is one kind of
value, the number, and one global scope of names.

* An expression is a constant, the name of a variable, or a binary operation.
* A statement assigns a value to a variable, runs statements one after the
  other, or compares two values and runs one of two branches, of which the
  second may be absent.

Two trees are equal when they have the same shape, names, operators and
constants.  Constants are kept with one pattern for NaN, so that equality of
trees is equality of values: NaN equals NaN, and the zeros differ.
-/

namespace Abacus

/-! ## Operators -/

/-- The binary operations on numbers. -/
inductive Operator where
  | addition
  | subtraction
  | multiplication
  | division
  | exponentiation
  deriving DecidableEq, Inhabited

/-- The comparisons of two numbers. -/
inductive Comparison where
  | equals
  | lessThan
  | greaterThan
  deriving DecidableEq, Inhabited

namespace Operator

/-- All operations. -/
def all : List Operator :=
  [addition, subtraction, multiplication, division, exponentiation]

/-- The name of an operation in node attributes and requests. -/
def name : Operator → String
  | addition => "ADDITION"
  | subtraction => "SUBTRACTION"
  | multiplication => "MULTIPLICATION"
  | division => "DIVISION"
  | exponentiation => "EXPONENTIATION"

/-- The name of an operation in inspection texts and stored trees. -/
def label : Operator → String
  | addition => "Addition"
  | subtraction => "Subtraction"
  | multiplication => "Multiplication"
  | division => "Division"
  | exponentiation => "Exponentiation"

/-- The operation with a given name. -/
def ofName? (name : String) : Option Operator := all.find? fun op => op.name == name

end Operator

namespace Comparison

/-- All comparisons. -/
def all : List Comparison := [equals, lessThan, greaterThan]

/-- The name of a comparison in node attributes and requests. -/
def name : Comparison → String
  | equals => "EQUALS"
  | lessThan => "LESS_THAN"
  | greaterThan => "GREATER_THAN"

/-- The name of a comparison in inspection texts and stored trees. -/
def label : Comparison → String
  | equals => "Equals"
  | lessThan => "LessThan"
  | greaterThan => "GreaterThan"

/-- The comparison with a given name. -/
def ofName? (name : String) : Option Comparison := all.find? fun op => op.name == name

end Comparison

/-! ## Constants and variables -/

theorem Binary64.canonical_canonical (x : Binary64) : x.canonical.canonical = x.canonical := by
  unfold Binary64.canonical
  split
  · decide
  · rfl

/-- A number written in a program, with one pattern for NaN. -/
structure Constant where
  /-- The number. -/
  value : Binary64
  /-- It is the canonical pattern of the numbers it stands for. -/
  isCanonical : value.canonical = value
  deriving DecidableEq

/-- The constant for a number. -/
def Constant.ofNumber (x : Binary64) : Constant := ⟨x.canonical, x.canonical_canonical⟩

instance : Inhabited Constant := ⟨.ofNumber .zero⟩

/-- A name that numbers are assigned to.  Any text is a name. -/
structure Variable where
  /-- The name. -/
  name : String
  deriving DecidableEq, Inhabited

/-! ## Expressions and statements -/

/-- What has a value. -/
inductive Expr where
  | const (constant : Constant)
  | var (source : Variable)
  | binary (operator : Operator) (lhs rhs : Expr)
  deriving DecidableEq, Inhabited

/-- What has an effect. -/
inductive Stmt where
  | assign (target : Variable) (value : Expr)
  | block (statements : List Stmt)
  | conditional (operator : Comparison) (lhs rhs : Expr) (ifTrue : Stmt) (ifFalse : Option Stmt)
  deriving Inhabited

/-- The name of an expression's variant in inspection texts and stored trees. -/
def Expr.variant : Expr → String
  | .const _ => "Constant"
  | .var _ => "Variable"
  | .binary .. => "Binary"

/-- The name of a statement's variant in inspection texts and stored trees. -/
def Stmt.variant : Stmt → String
  | .assign .. => "Assignment"
  | .block _ => "Block"
  | .conditional .. => "Conditional"

/-! ## Size -/

/-- The sum of a measure over a list. -/
def total {α : Type} (measure : α → Nat) (as : List α) : Nat :=
  @List.sum Nat _ .ofOfNat0 (as.map measure)

@[simp] theorem total_nil {α : Type} (measure : α → Nat) : total measure [] = 0 := List.sum_nil

@[simp] theorem total_cons {α : Type} (measure : α → Nat) (a : α) (as : List α) :
    total measure (a :: as) = measure a + total measure as := List.sum_cons

@[simp] theorem total_append {α : Type} (measure : α → Nat) (as bs : List α) :
    total measure (as ++ bs) = total measure as + total measure bs := by
  rw [total, List.map_append, List.sum_append_nat, total, total]

@[simp] theorem total_reverse {α : Type} (measure : α → Nat) (as : List α) :
    total measure as.reverse = total measure as := by
  rw [total, List.map_reverse, List.sum_reverse_nat, total]

/-- The number of nodes of an expression. -/
def Expr.size : Expr → Nat
  | .const _ => 1
  | .var _ => 1
  | .binary _ l r => 1 + l.size + r.size

mutual

/-- The number of nodes of a statement, the target of each assignment included. -/
def Stmt.size : Stmt → Nat
  | .assign _ e => 2 + e.size
  | .block ss => 1 + Stmt.sizeList ss
  | .conditional _ l r t f => 1 + l.size + r.size + t.size + Stmt.sizeOption f

/-- The number of nodes of a list of statements. -/
def Stmt.sizeList : List Stmt → Nat
  | [] => 0
  | s :: ss => s.size + Stmt.sizeList ss

/-- The number of nodes of an optional statement. -/
def Stmt.sizeOption : Option Stmt → Nat
  | none => 0
  | some s => s.size

end

theorem Stmt.sizeList_append (ss ts : List Stmt) :
    Stmt.sizeList (ss ++ ts) = Stmt.sizeList ss + Stmt.sizeList ts := by
  induction ss with
  | nil => simp [Stmt.sizeList]
  | cons s ss ih =>
    simp only [List.cons_append, Stmt.sizeList, ih]
    omega

/-- Induction over statements, with the hypothesis for every nested statement. -/
@[elab_as_elim] theorem Stmt.nestedInduction {motive : Stmt → Prop}
    (assign : ∀ x e, motive (.assign x e))
    (block : ∀ ss, (∀ s ∈ ss, motive s) → motive (.block ss))
    (conditional : ∀ op l r t f, motive t → (∀ s ∈ f, motive s) →
      motive (.conditional op l r t f)) :
    ∀ s, motive s
  | .assign x e => assign x e
  | .block ss => block ss fun s _ => nestedInduction assign block conditional s
  | .conditional op l r t none =>
    conditional op l r t none (nestedInduction assign block conditional t) nofun
  | .conditional op l r t (some f) =>
    conditional op l r t (some f) (nestedInduction assign block conditional t) fun _ here =>
      Option.mem_some.mp here ▸ nestedInduction assign block conditional f

/-! ## Equality of statements -/

namespace Stmt

mutual

/-- Decides whether two statements are equal. -/
def decEq : (s t : Stmt) → Decidable (s = t)
  | .assign x e, .assign y f => decidable_of_iff (x = y ∧ e = f) (by simp)
  | .block ss, .block ts =>
    have := decEqList ss ts
    decidable_of_iff (ss = ts) (by simp)
  | .conditional op l r t f, .conditional op' l' r' t' f' =>
    have := decEq t t'
    have := decEqOption f f'
    decidable_of_iff (op = op' ∧ l = l' ∧ r = r' ∧ t = t' ∧ f = f') (by simp)
  | .assign .., .block _ => isFalse nofun
  | .assign .., .conditional .. => isFalse nofun
  | .block _, .assign .. => isFalse nofun
  | .block _, .conditional .. => isFalse nofun
  | .conditional .., .assign .. => isFalse nofun
  | .conditional .., .block _ => isFalse nofun

/-- Decides whether two lists of statements are equal. -/
def decEqList : (ss ts : List Stmt) → Decidable (ss = ts)
  | [], [] => isTrue rfl
  | s :: ss, t :: ts =>
    have := decEq s t
    have := decEqList ss ts
    decidable_of_iff (s = t ∧ ss = ts) (by simp)
  | [], _ :: _ => isFalse nofun
  | _ :: _, [] => isFalse nofun

/-- Decides whether two optional statements are equal. -/
def decEqOption : (s t : Option Stmt) → Decidable (s = t)
  | none, none => isTrue rfl
  | some s, some t =>
    have := decEq s t
    decidable_of_iff (s = t) (by simp)
  | none, some _ => isFalse nofun
  | some _, none => isFalse nofun

end

instance : DecidableEq Stmt := decEq

end Stmt

end Abacus
