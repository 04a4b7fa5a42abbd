import Abacus.Tree.Basic

/-!
# Taking trees apart

A deep tree is let go of piece by piece.  Detaching a node moves its nested
parts onto a stack and leaves a *husk* behind, a node without nested parts of
its own.  The loop takes the top of the stack and detaches it in turn until the
stack is empty.  So every value that is let go of is a husk, however deep the
tree was.

A leaf is not worth moving: the operands of an operation are moved only if they
are operations themselves, and the first branch of a conditional only if it is
not an empty block already.
-/

namespace Abacus

/-- What taking a tree apart went through. -/
structure Dismantling (α : Type) where
  /-- The parts that were moved onto the stack, in order. -/
  moved : List α
  /-- What was left of the tree and then of each part, in order. -/
  husks : List α

/-! ## Expressions -/

namespace Expr

/-- Whether an expression is an operation. -/
def isBinary : Expr → Bool
  | .binary .. => true
  | _ => false

/-- What takes the place of an operand: an operation becomes the constant zero. -/
def hollow (e : Expr) : Expr := if e.isBinary then .const (.ofNumber .zero) else e

/-- What is left of an expression when its operands are detached, and the
operands that were moved, in order. -/
def detach : Expr → Expr × List Expr
  | .binary op l r => (.binary op l.hollow r.hollow, [l, r].filter isBinary)
  | e => (e, [])

/-- The number of nodes of a list of expressions. -/
def sizeList (es : List Expr) : Nat := total size es

@[simp] theorem sizeList_nil : sizeList [] = 0 := rfl

@[simp] theorem sizeList_cons (e : Expr) (es : List Expr) :
    sizeList (e :: es) = e.size + sizeList es := by
  simp [sizeList]

@[simp] theorem sizeList_append (ds es : List Expr) :
    sizeList (ds ++ es) = sizeList ds + sizeList es := by
  simp [sizeList]

@[simp] theorem sizeList_reverse (es : List Expr) : sizeList es.reverse = sizeList es := by
  simp [sizeList]

theorem sizeList_filter_le (p : Expr → Bool) (es : List Expr) :
    sizeList (es.filter p) ≤ sizeList es := by
  induction es with
  | nil => exact Nat.le_refl _
  | cons e es ih =>
    cases h : p e with
    | false =>
      rw [List.filter_cons_of_neg (by simp [h]), sizeList_cons]
      omega
    | true =>
      rw [List.filter_cons_of_pos h, sizeList_cons, sizeList_cons]
      omega

/-- The parts that are moved are smaller than the expression. -/
theorem sizeList_detach_lt (e : Expr) : sizeList e.detach.2 < e.size := by
  cases e with
  | const c => exact Nat.zero_lt_one
  | var v => exact Nat.zero_lt_one
  | binary op l r =>
    have := sizeList_filter_le isBinary [l, r]
    simp only [sizeList_cons, sizeList_nil] at this
    simp only [detach, size]
    omega

/-- Takes the expressions on a stack apart, the top first.  The parts moved and
the husks left so far come last first. -/
def dismantleFrom : List Expr → List Expr → List Expr → Dismantling Expr
  | [], moved, husks => ⟨moved.reverse, husks.reverse⟩
  | e :: stack, moved, husks =>
    dismantleFrom (e.detach.2.reverse ++ stack) (e.detach.2.reverse ++ moved) (e.detach.1 :: husks)
termination_by stack => sizeList stack
decreasing_by
  have := e.sizeList_detach_lt
  rw [sizeList_append, sizeList_reverse, sizeList_cons]
  omega

/-- Takes an expression apart. -/
def dismantle (e : Expr) : Dismantling Expr := dismantleFrom [e] [] []

end Expr

/-! ## Statements -/

namespace Stmt

/-- Whether a statement is a block without statements. -/
def isEmptyBlock : Stmt → Bool
  | .block [] => true
  | _ => false

/-- What is left of a statement when its nested statements are detached, and
the statements that were moved, in order. -/
def detach : Stmt → Stmt × List Stmt
  | .assign x e => (.assign x e, [])
  | .block ss => (.block [], ss)
  | .conditional op l r t f =>
    (.conditional op l r (.block []) none, (if t.isEmptyBlock then [] else [t]) ++ f.toList)

theorem sizeList_eq_total (ss : List Stmt) : sizeList ss = total size ss := by
  induction ss with
  | nil => rfl
  | cons s ss ih => simp [sizeList, ih]

/-- The parts that are moved are smaller than the statement. -/
theorem sizeList_detach_lt (s : Stmt) : sizeList s.detach.2 < s.size := by
  cases s with
  | assign x e =>
    simp only [detach, sizeList, size]
    omega
  | block ss =>
    simp only [detach, size]
    omega
  | conditional op l r t f =>
    have first : sizeList (if t.isEmptyBlock then [] else [t]) ≤ t.size := by
      split <;> simp [sizeList]
    have second : sizeList f.toList = sizeOption f := by
      cases f <;> simp [sizeList, sizeOption]
    simp only [detach, sizeList_append, size]
    omega

/-- Takes the statements on a stack apart, the top first.  The parts moved and
the husks left so far come last first. -/
def dismantleFrom : List Stmt → List Stmt → List Stmt → Dismantling Stmt
  | [], moved, husks => ⟨moved.reverse, husks.reverse⟩
  | s :: stack, moved, husks =>
    dismantleFrom (s.detach.2.reverse ++ stack) (s.detach.2.reverse ++ moved) (s.detach.1 :: husks)
termination_by stack => total size stack
decreasing_by
  have := s.sizeList_detach_lt
  rw [sizeList_eq_total] at this
  rw [total_append, total_reverse, total_cons]
  omega

/-- Takes a statement apart. -/
def dismantle (s : Stmt) : Dismantling Stmt := dismantleFrom [s] [] []

end Stmt

end Abacus
