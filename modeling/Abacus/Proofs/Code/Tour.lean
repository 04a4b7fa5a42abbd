import Abacus.Proofs.Code.Text
import Abacus.Proofs.Layout.Limit
import Abacus.Proofs.Layout.Parts
import Abacus.Proofs.Tree.Outline

/-!
# The parts of code are the statements of the tree

Writing the code of a statement tells where the code of each statement begins and
ends.  These marks are a *tour* of the statements: into a statement, around those
among its children, and out again (`Node.tour`).  The tour is a matter of the tree
alone, and enters the statements in the order in which a walk visits them
(`Node.entered_tour`).

A script of code tells the tour of its statement (`Stmt.tells_tour`), one case for
each kind of statement.  What becomes of the marks when a sink refuses a
character was seen for all scripts that close what they open.
-/

namespace Abacus

namespace Node

/-! ## Tours -/

/-- Whether a node is a statement. -/
def isStmt : Node → Bool
  | .stmt _ => true
  | _ => false

/-- The statements among the children of a node, first to last. -/
def statements (n : Node) : List Node := n.below.filter isStmt

theorem size_lt_of_mem_statements {m n : Node} (here : m ∈ n.statements) : m.size < n.size := by
  obtain ⟨p, child, rfl⟩ := List.mem_map.mp (List.mem_filter.mp here).1
  exact size_lt_of_mem_children child

/-- Into a node, around the statements among its children, and out again. -/
def tour (n : Node) : List Mark :=
  .enter n.kind :: (n.statements.attach.flatMap fun m => m.1.tour) ++ [.leave]
termination_by n.size
decreasing_by exact size_lt_of_mem_statements m.2

theorem tour_eq (n : Node) : n.tour = .enter n.kind :: n.statements.flatMap tour ++ [.leave] := by
  have plain : (n.statements.attach.flatMap fun m => m.1.tour) = n.statements.flatMap tour := by
    rw [List.flatMap_subtype (fun _ _ => rfl), List.unattach_attach]
  rw [tour, plain]

theorem statements_assign (x : Variable) (e : Expr) : (Node.stmt (.assign x e)).statements = [] :=
  rfl

theorem statements_block (ss : List Stmt) : (Node.stmt (.block ss)).statements = ss.map .stmt := by
  rw [statements, below_block, List.filter_map]
  exact congrArg (List.map Node.stmt) (List.filter_eq_self.mpr fun _ _ => rfl)

theorem statements_conditional (op : Comparison) (l r : Expr) (t : Stmt) (f : Option Stmt) :
    (Node.stmt (.conditional op l r t f)).statements = .stmt t :: f.toList.map .stmt := by
  cases f <;> rfl

/-- Below what is no statement there is none. -/
theorem statements_of_not_isStmt {n : Node} (other : n.isStmt = false) : n.statements = [] := by
  match n with
  | .expr (.const _) => rfl
  | .expr (.var _) => rfl
  | .expr (.binary _ _ _) => rfl
  | .var _ => rfl
  | .stmt _ => cases other

/-- The statements that a walk visits. -/
def visitedStatements (n : Node) : List Node := n.walk.filter isStmt

theorem visitedStatements_eq (n : Node) :
    n.visitedStatements = [n].filter isStmt ++ n.below.flatMap visitedStatements := by
  rw [visitedStatements, walk_eq, ← List.singleton_append, List.filter_append, List.filter_flatMap]
  rfl

theorem visitedStatements_of_not_isStmt {n : Node} (other : n.isStmt = false) :
    n.visitedStatements = [] := by
  induction n using childInduction with
  | step n ih =>
    have none := List.filter_eq_nil_iff.mp (statements_of_not_isStmt other)
    rw [visitedStatements_eq, List.filter_singleton, other, List.flatMap_eq_nil_iff.mpr]
    · rfl
    · intro m here
      obtain ⟨p, child, rfl⟩ := List.mem_map.mp here
      exact ih p child (Bool.eq_false_of_not_eq_true (none p.2 here))

/-- Of a list of nodes only the statements lead to statements. -/
theorem flatMap_visitedStatements (ns : List Node) :
    ns.flatMap visitedStatements = (ns.filter isStmt).flatMap visitedStatements := by
  induction ns with
  | nil => rfl
  | cons n ns ih =>
    rw [List.flatMap_cons, ih]
    cases stmt : n.isStmt with
    | true => rw [List.filter_cons_of_pos stmt, List.flatMap_cons]
    | false =>
      rw [List.filter_cons_of_neg (Bool.not_eq_true _ ▸ stmt), visitedStatements_of_not_isStmt stmt,
        List.nil_append]

/-- A tour enters the statements in the order of the walk. -/
theorem entered_tour (n : Node) (stmt : n.isStmt = true) :
    Mark.entered n.tour = n.visitedStatements.map kind := by
  induction n using childInduction with
  | step n ih =>
    have each : ∀ m ∈ n.statements, Mark.entered m.tour = m.visitedStatements.map kind := by
      intro m here
      obtain ⟨member, inside⟩ := List.mem_filter.mp here
      obtain ⟨p, child, rfl⟩ := List.mem_map.mp member
      exact ih p child inside
    rw [tour_eq, Mark.entered_part, Mark.entered_flatMap, List.flatMap_congr each,
      visitedStatements_eq, List.filter_singleton, stmt, flatMap_visitedStatements, List.map_append,
      List.map_flatMap]
    rfl

end Node

/-! ## The marks of code -/

/-- The code of an expression is not divided into parts. -/
theorem Expr.tells_nothing (style : CodeStyle) (e : Expr) : (e.codeScript style).Tells [] := by
  induction e with
  | const c =>
    rw [Expr.codeScript_eq]
    exact .write _
  | var v =>
    rw [Expr.codeScript_eq]
    exact .write _
  | binary op l r ihl ihr =>
    rw [Expr.codeScript_eq]
    exact (Script.Tells.write op.code.1).append (ihl.append ((Script.Tells.write op.code.2.1).append
      (ihr.append (.write op.code.2.2))))

/-- The code of a statement is divided into the code of its statements. -/
theorem Stmt.tells_tour (style : CodeStyle) (s : Stmt) :
    (s.codeScript style).Tells (Node.stmt s).tour := by
  induction s using Stmt.nestedInduction with
  | assign x e =>
    have pieces := (Script.Tells.write x.name).append ((Script.Tells.write " = ").append
      ((e.tells_nothing style).append (.write ";")))
    rw [Stmt.codeScript_eq, Node.tour_eq, Node.statements_assign]
    exact pieces.part _
  | block ss ih =>
    rw [Stmt.codeScript_eq, Node.tour_eq, Node.statements_block, List.flatMap_map]
    refine .part ?_ _
    cases ss with
    | nil => exact .write "\x7b\x7d"
    | cons s ss =>
      have lines := Script.Tells.flatMap (s :: ss) (fun t => t.codeScript style ++ [.write "\n"])
        (fun t => (Node.stmt t).tour ++ []) fun t here => (ih t here).append (.write "\n")
      have pieces := (Script.Tells.write "\x7b\n").append
        ((lines.layer style.indent).append (.write "\x7d"))
      rw [scripts_block_cons]
      simpa using pieces
  | conditional op l r t f iht ihf =>
    have start : ∀ {script : Script} {told : List Mark}, script.Tells told → Script.Tells _ _ :=
      fun otherwise => (Script.Tells.write "if (").append ((l.tells_nothing style).append
        ((Script.Tells.write (" " ++ style.token op ++ " ")).append ((r.tells_nothing style).append
          ((Script.Tells.write ") ").append (iht.append otherwise)))))
    rw [Stmt.codeScript_eq, Node.tour_eq, Node.statements_conditional]
    refine .part ?_ _
    cases f with
    | none => exact start (.write " else \x7b\x7d")
    | some f =>
      have last : Script.Tells (f.codeScript style ++ []) ((Node.stmt f).tour ++ []) :=
        (ihf f rfl).append ⟨.nil, rfl⟩
      exact start ((Script.Tells.write " else ").append last)

/-- Writing the code of a statement, into any layers over any sink, tells marks that are
nested and that enter statements in the order of the walk, from the first one on.  Unless
a character is refused, they are the tour, which enters every statement once. -/
theorem marks_follow_tour (w : Writer) (style : CodeStyle) (s : Stmt) :
    Mark.Nested (w.writeStmt style s).marks ∧
    Mark.entered (w.writeStmt style s).marks <+:
      ((Node.stmt s).walk.filter Node.isStmt).map Node.kind ∧
    ((w.writeStmt style s).complete = true →
      (w.writeStmt style s).marks = (Node.stmt s).tour ∧
      Mark.entered (w.writeStmt style s).marks =
        ((Node.stmt s).walk.filter Node.isStmt).map Node.kind) := by
  obtain ⟨⟨nested, kinds⟩, whole⟩ := (s.tells_tour style).perform w
  have visited := (Node.stmt s).entered_tour rfl
  rw [visited] at kinds
  refine ⟨nested, kinds, fun complete => ?_⟩
  have same := whole complete
  exact ⟨same, (congrArg Mark.entered same).trans visited⟩

/-- An empty block and an assignment as the branches of a conditional in a block. -/
theorem marks_follow_tour_branches :
    let s : Stmt := .block [.conditional .lessThan (.var ⟨"x"⟩) (.var ⟨"y"⟩) (.block [])
      (some (.assign ⟨"x"⟩ (.var ⟨"y"⟩)))]
    let written := (Writer.onto "" none).writeStmt default s
    written.complete = true ∧
      written.marks = [.enter "BlockNode", .enter "ConditionalNode", .enter "BlockNode", .leave,
        .enter "AssignmentNode", .leave, .leave, .leave] := by
  intro s written
  have complete : written.complete = true := (Script.performFrom_unlimited _ [] "" []).1
  refine ⟨complete, ((marks_follow_tour _ _ s).2.2 complete).1.trans ?_⟩
  simp [s, Node.tour_eq, Node.statements_block, Node.statements_conditional,
    Node.statements_assign, Node.kind]

end Abacus
