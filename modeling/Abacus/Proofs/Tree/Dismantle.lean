import Abacus.Proofs.Tree.Outline
import Abacus.Proofs.Tree.Worklist

/-!
# Trees are let go of piece by piece

A tree is taken apart by a loop that ends, moves every nested part once and leaves husks
behind (`TakenApart`).  Nested parts are found by their paths, so that equal parts at
different places count.

To let go of a tree is to take it apart, to let go of each part when it is a husk, and at
last to let go of the children that the husk of the tree itself has kept
(`Node.Releases`).  A husk is let go of by the same loop, which then moves nothing.  So the
calls are not nested with the depth of the tree (`Node.ReleasedWithin`).
-/

namespace Abacus

/-! ## Nested parts -/

/-- A list has one entry for each path at which something stands, and nothing else. -/
def OncePerPath {α : Type} (stands : List Nat → α → Prop) (as : List α) : Prop :=
  ∃ places : List (List Nat × α), places.map Prod.snd = as ∧ (places.map Prod.fst).Nodup ∧
    ∀ path a, (path, a) ∈ places ↔ stands path a

theorem OncePerPath.congr {α : Type} {stands stands' : List Nat → α → Prop} {as : List α}
    (once : OncePerPath stands as) (same : ∀ path a, stands path a ↔ stands' path a) :
    OncePerPath stands' as := by
  obtain ⟨places, listed, distinct, found⟩ := once
  exact ⟨places, listed, distinct, fun path a => (found path a).trans (same path a)⟩

theorem OncePerPath.perm {α : Type} {stands : List Nat → α → Prop} {as bs : List α}
    (once : OncePerPath stands as) (same : bs.Perm as) : OncePerPath stands bs := by
  obtain ⟨places, rfl, distinct, found⟩ := once
  have arranged : Relation.Comp (· = List.map Prod.snd ·) List.Perm bs places := by
    rw [List.eq_map_comp_perm]
    exact same
  obtain ⟨places', rfl, moved⟩ := arranged
  refine ⟨places', rfl, (moved.map Prod.fst).nodup_iff.mpr distinct, fun path a => ?_⟩
  rw [moved.mem_iff]
  exact found path a

/-- A value is taken apart piece by piece, where its nested parts stand at paths. -/
structure TakenApart {α : Type} (detach : α → α × List α) (stands : List Nat → α → Prop)
    (IsHusk : α → Prop) (a : α) (d : Dismantling α) : Prop where
  /-- The loop ends, after one turn for the value and one for each part that was moved. -/
  ends : Worklist.EndsAfter detach (d.moved.length + 1) (.start a) d
  /-- Every nested part was moved onto the stack, and just once. -/
  once : OncePerPath stands d.moved
  /-- What is let go of is what was left of the value and of each part that was moved. -/
  left : ∃ detached : List α, detached.Perm d.moved ∧
    d.husks = (a :: detached).map fun b => (detach b).1
  /-- These are husks, and nothing is moved off them a second time. -/
  husks : ∀ h ∈ d.husks, IsHusk h ∧ detach h = (h, [])

theorem TakenApart.of_follows {α : Type} {detach : α → α × List α} {nested : α → List α}
    {stands : List Nat → α → Prop} {IsHusk : α → Prop}
    {finish : List α → List α → List α → Dismantling α} {a : α}
    (follows : Worklist.Follows detach finish) (unnests : Worklist.Unnests detach nested)
    (once : OncePerPath stands (nested a)) (husk : ∀ b, IsHusk (detach b).1)
    (bare : ∀ h, IsHusk h → detach h = (h, [])) :
    TakenApart detach stands IsHusk a (finish [a] [] []) := by
  have ends : Worklist.EndsAfter detach ((nested a).length + 1) (.start a) (finish [a] [] []) :=
    Worklist.endsAfter unnests follows (.start a)
  have moved := ends.moved_perm unnests
  obtain ⟨detached, all, left⟩ := ends.accounted
  refine ⟨moved.length_eq ▸ ends, once.perm moved, ⟨detached, all, left⟩, fun h here => ?_⟩
  rw [left] at here
  obtain ⟨b, -, rfl⟩ := List.mem_map.mp here
  exact ⟨husk b, bare _ (husk b)⟩

namespace Node

section

variable {β : Type} {question : Visit → Option β}

/-- The answers to a question below the root of a tree, in the order of the walk. -/
def nested (question : Visit → Option β) (n : Node) : List β :=
  (n.visits none).tail.filterMap question

/-- The answers below a node are those of its children and those below its children. -/
theorem nested_eq (depthless : ∀ v : Visit, question v.deeper = question v) (n : Node) :
    n.nested question =
      n.children.flatMap fun p => (question ⟨0, some p.1, p.2⟩).toList ++ p.2.nested question := by
  have same : question ∘ Visit.deeper = question := funext depthless
  have below : ∀ (role : Option Role) (m : Node),
      (m.visits role).tail.filterMap question = (visitsBelow m.children).filterMap question := by
    intro role m
    rw [visits_eq, List.tail_cons, List.filterMap_map, same]
  rw [nested, below, visitsBelow, List.filterMap_flatMap]
  refine List.flatMap_congr fun p _ => ?_
  rw [nested, below none, ← below (some p.1), visits_eq, List.filterMap_cons, List.tail_cons]
  cases question ⟨0, some p.1, p.2⟩ <;> rfl

theorem nested_perm (depthless : ∀ v : Visit, question v.deeper = question v) (n : Node) :
    (n.nested question).Perm
      ((n.children.flatMap fun p => (question ⟨0, some p.1, p.2⟩).toList) ++
        n.below.flatMap (nested question)) := by
  rw [nested_eq depthless, below, List.flatMap_map]
  exact (List.flatMap_append_perm _ _ _).symm

/-- The places below the root are those whose path is not empty. -/
theorem mem_tail_places_iff {n m : Node} {path : List Nat} :
    (path, m) ∈ n.places.tail ↔ path ≠ [] ∧ n.at? path = some m := by
  rw [← mem_places_iff, places_eq, List.tail_cons, List.mem_cons]
  constructor
  · intro here
    obtain ⟨i, rest, -, same⟩ := exists_of_mem_placesFrom here
    exact ⟨ne_of_eq_of_ne same (List.cons_ne_nil i rest), .inr here⟩
  · rintro ⟨below, here⟩
    exact here.resolve_left fun root => below (congrArg Prod.fst root)

/-- A question that is asked at every place below the root is answered once for each. -/
theorem oncePerPath_nested (n : Node) :
    OncePerPath (fun path b => ∃ m, (path ≠ [] ∧ n.at? path = some m) ∧
      question (n.visitAt none (path, m)) = some b) (n.nested question) := by
  have visits : (n.places.tail.map fun p => (p.1, n.visitAt none p)).map Prod.snd =
      (n.visits none).tail := by
    rw [visits_eq_places, List.map_map, ← List.map_tail]
    rfl
  have paths : (n.places.tail.map fun p => (p.1, n.visitAt none p)).map Prod.fst =
      (n.places.map Prod.fst).tail := by
    rw [List.map_map, ← List.map_tail]
    rfl
  refine ⟨answers question (n.places.tail.map fun p => (p.1, n.visitAt none p)), ?_, ?_, ?_⟩
  · rw [map_snd_answers, visits]
    rfl
  · refine n.nodup_paths.sublist ((map_fst_answers_sublist _).trans ?_)
    rw [paths]
    exact List.tail_sublist _
  · intro path b
    rw [mem_answers_iff]
    constructor
    · rintro ⟨v, here, answer⟩
      obtain ⟨⟨path, m⟩, there, same⟩ := List.mem_map.mp here
      cases same
      exact ⟨m, mem_tail_places_iff.mp there, answer⟩
    · rintro ⟨m, there, answer⟩
      exact ⟨_, List.mem_map_of_mem (mem_tail_places_iff.mpr there), answer⟩

end

end Node

/-! ## Expressions -/

/-- The operation that is met at a place, if there is one. -/
def Visit.operation? (v : Visit) : Option Expr :=
  match v.node with
  | .expr e => if e.isBinary then some e else none
  | _ => none

theorem Visit.operation?_deeper (v : Visit) : v.deeper.operation? = v.operation? := rfl

theorem Visit.operation?_eq_some_iff {v : Visit} {e : Expr} :
    v.operation? = some e ↔ v.node = .expr e ∧ e.isBinary = true := by
  obtain ⟨depth, role, n⟩ := v
  cases n with
  | expr e' =>
    rw [operation?, Option.ite_none_right_eq_some, Option.some_inj, Node.expr.injEq]
    constructor
    · rintro ⟨binary, rfl⟩
      exact ⟨rfl, binary⟩
    · rintro ⟨rfl, binary⟩
      exact ⟨binary, rfl⟩
  | stmt s => simp [operation?]
  | var v => simp [operation?]

namespace Expr

/-- A leaf, or an operation on leaves. -/
inductive IsHusk : Expr → Prop where
  | const (c : Constant) : IsHusk (.const c)
  | var (v : Variable) : IsHusk (.var v)
  | binary (op : Operator) {l r : Expr} (left : l.isBinary = false) (right : r.isBinary = false) :
      IsHusk (.binary op l r)

theorem isBinary_hollow (e : Expr) : e.hollow.isBinary = false := by
  cases e <;> rfl

theorem hollow_eq {e : Expr} (leaf : e.isBinary = false) : e.hollow = e := by
  rw [hollow, leaf]
  rfl

/-- What is left of an expression is a husk. -/
theorem isHusk_detach (e : Expr) : e.detach.1.IsHusk := by
  cases e with
  | const c => exact .const c
  | var v => exact .var v
  | binary op l r => exact .binary op l.isBinary_hollow r.isBinary_hollow

/-- Nothing is moved off a husk. -/
theorem IsHusk.detach_eq {e : Expr} (husk : e.IsHusk) : e.detach = (e, []) := by
  cases husk with
  | const c => rfl
  | var v => rfl
  | binary op left right =>
    rw [detach, hollow_eq left, hollow_eq right]
    simp [left, right]

/-- An operation stands at a path below the root. -/
def NestedAt (e : Expr) (path : List Nat) (d : Expr) : Prop :=
  path ≠ [] ∧ (Node.expr e).at? path = some (.expr d) ∧ d.isBinary = true

/-- The operations nested in an expression. -/
def operations (e : Expr) : List Expr := (Node.expr e).nested Visit.operation?

theorem operations_of_leaf {e : Expr} (leaf : e.isBinary = false) : e.operations = [] := by
  rw [operations, Node.nested_eq Visit.operation?_deeper]
  cases e with
  | const c => rfl
  | var v => rfl
  | binary op l r => cases leaf

/-- The operations nested in an operation are its operands, if they are operations, and
those nested in these. -/
theorem unnests_operations : Worklist.Unnests detach operations := by
  intro e
  have parts := (Node.expr e).nested_perm Visit.operation?_deeper
  cases e with
  | const c => exact parts
  | var v => exact parts
  | binary op l r =>
    have own : ((Node.expr (.binary op l r)).children.flatMap fun p =>
        (Visit.operation? ⟨0, some p.1, p.2⟩).toList) = [l, r].filter isBinary := by
      cases left : l.isBinary <;> cases right : r.isBinary <;>
        simp [Node.children, Visit.operation?, left, right]
    have deeper : [l, r].flatMap operations = ([l, r].filter isBinary).flatMap operations := by
      cases left : l.isBinary <;> cases right : r.isBinary <;>
        simp [left, right, operations_of_leaf]
    rw [own] at parts
    exact parts.trans (.of_eq (congrArg _ deeper))

theorem follows_dismantleFrom : Worklist.Follows detach dismantleFrom where
  nil moved husks := by rw [dismantleFrom]
  cons e stack moved husks := by rw [dismantleFrom]

theorem oncePerPath_operations (e : Expr) : OncePerPath e.NestedAt e.operations := by
  refine (Node.expr e).oncePerPath_nested.congr fun path d => ?_
  simp only [Visit.operation?_eq_some_iff, Node.visitAt]
  constructor
  · rintro ⟨m, ⟨below, here⟩, rfl, binary⟩
    exact ⟨below, here, binary⟩
  · rintro ⟨below, here, binary⟩
    exact ⟨_, ⟨below, here⟩, rfl, binary⟩

theorem takenApart (e : Expr) : TakenApart detach e.NestedAt IsHusk e e.dismantle :=
  .of_follows follows_dismantleFrom unnests_operations e.oncePerPath_operations isHusk_detach
    fun _ => IsHusk.detach_eq

end Expr

/-! ## Statements -/

/-- The statement that is met at a place, unless it is a first branch that is empty already. -/
def Visit.statement? (v : Visit) : Option Stmt :=
  match v.node with
  | .stmt s => if v.role = some .ifTrue ∧ s.isEmptyBlock = true then none else some s
  | _ => none

theorem Visit.statement?_deeper (v : Visit) : v.deeper.statement? = v.statement? := rfl

theorem Visit.statement?_eq_some_iff {v : Visit} {s : Stmt} :
    v.statement? = some s ↔
      v.node = .stmt s ∧ ¬ (v.role = some .ifTrue ∧ s.isEmptyBlock = true) := by
  obtain ⟨depth, role, n⟩ := v
  cases n with
  | expr e => simp [statement?]
  | stmt s' =>
    rw [statement?, Option.ite_none_left_eq_some, Option.some_inj, Node.stmt.injEq]
    constructor
    · rintro ⟨full, rfl⟩
      exact ⟨rfl, full⟩
    · rintro ⟨rfl, full⟩
      exact ⟨full, rfl⟩
  | var v => simp [statement?]

theorem Expr.nested_statement (e : Expr) : (Node.expr e).nested Visit.statement? = [] := by
  induction e with
  | const c => rw [Node.nested_eq Visit.statement?_deeper]; rfl
  | var v => rw [Node.nested_eq Visit.statement?_deeper]; rfl
  | binary op l r left right =>
    rw [Node.nested_eq Visit.statement?_deeper]
    simp [Node.children, Visit.statement?, left, right]

namespace Stmt

/-- An assignment, an empty block, or a conditional with an empty first branch and no second. -/
inductive IsHusk : Stmt → Prop where
  | assign (x : Variable) (e : Expr) : IsHusk (.assign x e)
  | block : IsHusk (.block [])
  | conditional (op : Comparison) (l r : Expr) : IsHusk (.conditional op l r (.block []) none)

/-- What is left of a statement is a husk. -/
theorem isHusk_detach (s : Stmt) : s.detach.1.IsHusk := by
  cases s with
  | assign x e => exact .assign x e
  | block ss => exact .block
  | conditional op l r t f => exact .conditional op l r

/-- Nothing is moved off a husk. -/
theorem IsHusk.detach_eq {s : Stmt} (husk : s.IsHusk) : s.detach = (s, []) := by
  cases husk <;> rfl

/-- A statement stands at a path below the root, and is not a first branch that is empty
already. -/
def NestedAt (s : Stmt) (path : List Nat) (t : Stmt) : Prop :=
  path ≠ [] ∧ (Node.stmt s).at? path = some (.stmt t) ∧
    ¬ ((Node.stmt s).roleAt none path = some .ifTrue ∧ t.isEmptyBlock = true)

/-- The statements nested in a statement, less the first branches that are empty already. -/
def nestedStatements (s : Stmt) : List Stmt := (Node.stmt s).nested Visit.statement?

theorem eq_of_isEmptyBlock {s : Stmt} (empty : s.isEmptyBlock = true) : s = .block [] := by
  unfold isEmptyBlock at empty
  split at empty
  · rfl
  · cases empty

/-- The statements nested in a statement are those detached from it, and those nested in
these. -/
theorem unnests_nestedStatements : Worklist.Unnests detach nestedStatements := by
  intro s
  have parts := (Node.stmt s).nested_perm Visit.statement?_deeper
  cases s with
  | assign x e =>
    have target : (Node.var x).nested Visit.statement? = [] :=
      Node.nested_eq Visit.statement?_deeper (.var x)
    have deeper : (Node.stmt (.assign x e)).below.flatMap (Node.nested Visit.statement?) = [] := by
      simp [Node.below, Node.children, target, e.nested_statement]
    rw [deeper] at parts
    exact parts
  | block ss =>
    have own : ((Node.stmt (.block ss)).children.flatMap fun p =>
        (Visit.statement? ⟨0, some p.1, p.2⟩).toList) = ss := by
      simp [Node.children, Visit.statement?, List.flatMap_map, ← List.map_eq_flatMap]
    rw [own, Node.below_block, List.flatMap_map] at parts
    exact parts
  | conditional op l r t f =>
    have own : ((Node.stmt (.conditional op l r t f)).children.flatMap fun p =>
        (Visit.statement? ⟨0, some p.1, p.2⟩).toList) =
        (if t.isEmptyBlock then [] else [t]) ++ f.toList := by
      cases f <;> cases empty : t.isEmptyBlock <;> simp [Node.children, Visit.statement?, empty]
    -- an empty first branch stays where it is, and has nothing nested in it either
    have branch : t.nestedStatements =
        (if t.isEmptyBlock then [] else [t]).flatMap nestedStatements := by
      split
      next empty =>
        rw [eq_of_isEmptyBlock empty]
        exact Node.nested_eq Visit.statement?_deeper (.stmt (.block []))
      next => exact (List.flatMap_singleton nestedStatements t).symm
    have deeper : (Node.stmt (.conditional op l r t f)).below.flatMap
        (Node.nested Visit.statement?) = t.nestedStatements ++ f.toList.flatMap nestedStatements := by
      rw [Node.below_conditional, List.flatMap_cons, List.flatMap_cons, List.flatMap_cons,
        l.nested_statement, r.nested_statement, List.flatMap_map]
      rfl
    rw [own, deeper, branch, ← List.flatMap_append] at parts
    exact parts

theorem follows_dismantleFrom : Worklist.Follows detach dismantleFrom where
  nil moved husks := by rw [dismantleFrom]
  cons s stack moved husks := by rw [dismantleFrom]

theorem oncePerPath_nestedStatements (s : Stmt) : OncePerPath s.NestedAt s.nestedStatements := by
  refine (Node.stmt s).oncePerPath_nested.congr fun path t => ?_
  simp only [Visit.statement?_eq_some_iff, Node.visitAt]
  constructor
  · rintro ⟨m, ⟨below, here⟩, rfl, full⟩
    exact ⟨below, here, full⟩
  · rintro ⟨below, here, full⟩
    exact ⟨_, ⟨below, here⟩, rfl, full⟩

theorem takenApart (s : Stmt) : TakenApart detach s.NestedAt IsHusk s s.dismantle :=
  .of_follows follows_dismantleFrom unnests_nestedStatements s.oncePerPath_nestedStatements
    isHusk_detach fun _ => IsHusk.detach_eq

end Stmt

/-! ## Letting go -/

namespace Node

/-- What is left of a node, and then of each part of it that is moved. -/
def husks : Node → List Node
  | .expr e => e.dismantle.husks.map .expr
  | .stmt s => s.dismantle.husks.map .stmt
  | .var v => [.var v]

/-- What is let go of within the call that lets go of a node. -/
inductive Releases (n : Node) : Node → Prop where
  /-- A part that was moved, once it is detached. -/
  | part {h : Node} (here : h ∈ n.husks.tail) : Releases n h
  /-- After the loop, a child of what is left of the node. -/
  | child {own c : Node} (left : n.husks.head? = some own) (here : c ∈ own.below) : Releases n c

/-- The calls that let go of a node are nested no deeper than the bound, its own included. -/
def ReleasedWithin (depth : Nat) (n : Node) : Prop :=
  ∀ calls : List Node, (n :: calls).IsChain Releases → (n :: calls).length ≤ depth

theorem ReleasedWithin.mono {depth depth' : Nat} {n : Node} (released : n.ReleasedWithin depth)
    (le : depth ≤ depth') : n.ReleasedWithin depth' :=
  fun calls nested => Nat.le_trans (released calls nested) le

theorem ReleasedWithin.of_releases {depth : Nat} {n own : Node} {parts : List Node}
    (husks : n.husks = own :: parts) (moved : ∀ part ∈ parts, part.ReleasedWithin depth)
    (kept : ∀ child ∈ own.below, child.ReleasedWithin depth) : n.ReleasedWithin (depth + 1) := by
  intro calls nested
  cases calls with
  | nil => exact Nat.succ_le_succ (Nat.zero_le depth)
  | cons m calls =>
    obtain ⟨first, others⟩ := List.isChain_cons_cons.mp nested
    refine Nat.succ_le_succ ?_
    cases first with
    | part here =>
      rw [husks] at here
      exact moved m here calls others
    | child left here =>
      rw [husks] at left
      cases left
      exact kept m here calls others

theorem releasedWithin_var (v : Variable) : (Node.var v).ReleasedWithin 1 :=
  .of_releases rfl (List.forall_mem_nil _) (List.forall_mem_nil _)

end Node

/-- A value calls for its husks, and a husk for the children it has kept. -/
theorem TakenApart.releasedWithin {α : Type} {detach : α → α × List α}
    {stands : List Nat → α → Prop} {IsHusk : α → Prop} {a : α} {d : Dismantling α}
    {inject : α → Node} {depth : Nat} (apart : TakenApart detach stands IsHusk a d)
    (husks : (inject a).husks = d.husks.map inject)
    (alone : ∀ h, IsHusk h → (inject h).husks = [inject h])
    (below : ∀ h, IsHusk h → ∀ child ∈ (inject h).below, child.ReleasedWithin depth) :
    (inject a).ReleasedWithin (depth + 2) := by
  have shallow : ∀ h ∈ d.husks, (inject h).ReleasedWithin (depth + 1) := by
    intro h here
    have husk := (apart.husks h here).1
    exact .of_releases (alone h husk) (List.forall_mem_nil _) (below h husk)
  obtain ⟨detached, -, left⟩ := apart.left
  rw [left, List.map_cons] at husks shallow
  obtain ⟨-, parts⟩ := List.forall_mem_cons.mp shallow
  refine .of_releases husks (List.forall_mem_map.mpr parts) fun child here => ?_
  have own := (apart.husks (detach a).1 (left ▸ List.mem_cons_self)).1
  exact (below _ own child here).mono (Nat.le_succ depth)

namespace Expr

theorem IsHusk.node_husks {e : Expr} (husk : e.IsHusk) : (Node.expr e).husks = [.expr e] :=
  congrArg (fun d => d.husks.map Node.expr) (follows_dismantleFrom.of_bare husk.detach_eq)

theorem releasedWithin_of_leaf {e : Expr} (leaf : e.isBinary = false) :
    (Node.expr e).ReleasedWithin 1 := by
  cases e with
  | const c =>
    exact .of_releases (IsHusk.const c).node_husks (List.forall_mem_nil _) (List.forall_mem_nil _)
  | var v =>
    exact .of_releases (IsHusk.var v).node_husks (List.forall_mem_nil _) (List.forall_mem_nil _)
  | binary op l r => cases leaf

theorem IsHusk.releasedWithin_below {e : Expr} (husk : e.IsHusk) :
    ∀ child ∈ (Node.expr e).below, child.ReleasedWithin 1 := by
  cases husk with
  | const c => exact List.forall_mem_nil _
  | var v => exact List.forall_mem_nil _
  | binary op left right =>
    intro child here
    rcases List.mem_pair.mp here with rfl | rfl
    · exact releasedWithin_of_leaf left
    · exact releasedWithin_of_leaf right

theorem releasedWithin (e : Expr) : (Node.expr e).ReleasedWithin 3 :=
  e.takenApart.releasedWithin rfl (fun _ => IsHusk.node_husks)
    fun _ => IsHusk.releasedWithin_below

end Expr

namespace Stmt

theorem IsHusk.node_husks {s : Stmt} (husk : s.IsHusk) : (Node.stmt s).husks = [.stmt s] :=
  congrArg (fun d => d.husks.map Node.stmt) (follows_dismantleFrom.of_bare husk.detach_eq)

theorem releasedWithin_emptyBlock : (Node.stmt (.block [])).ReleasedWithin 1 :=
  .of_releases IsHusk.block.node_husks (List.forall_mem_nil _) (List.forall_mem_nil _)

theorem IsHusk.releasedWithin_below {s : Stmt} (husk : s.IsHusk) :
    ∀ child ∈ (Node.stmt s).below, child.ReleasedWithin 3 := by
  cases husk with
  | assign x e =>
    intro child here
    rcases List.mem_pair.mp here with rfl | rfl
    · exact (Node.releasedWithin_var x).mono (by decide)
    · exact e.releasedWithin
  | block => exact List.forall_mem_nil _
  | conditional op l r =>
    rw [Node.below_conditional]
    refine List.forall_mem_cons.mpr ⟨l.releasedWithin, List.forall_mem_cons.mpr
      ⟨r.releasedWithin, List.forall_mem_singleton.mpr ?_⟩⟩
    exact releasedWithin_emptyBlock.mono (by decide)

theorem releasedWithin (s : Stmt) : (Node.stmt s).ReleasedWithin 5 :=
  s.takenApart.releasedWithin rfl (fun _ => IsHusk.node_husks)
    fun _ => IsHusk.releasedWithin_below

end Stmt

/-- Every expression and every statement is taken apart by a loop that ends.  It moves every
nested operation, and every nested statement other than an empty first branch, onto the
stack just once.  All that is let go of are husks, off which nothing is moved a second time.
So the calls that let go of a tree are nested at most three deep for an expression and five
deep for a statement, however deep the tree is. -/
theorem dismantled_into_husks :
    (∀ e : Expr, TakenApart Expr.detach e.NestedAt Expr.IsHusk e e.dismantle ∧
      (Node.expr e).ReleasedWithin 3) ∧
    ∀ s : Stmt, TakenApart Stmt.detach s.NestedAt Stmt.IsHusk s s.dismantle ∧
      (Node.stmt s).ReleasedWithin 5 := by
  constructor
  · intro e
    exact ⟨e.takenApart, e.releasedWithin⟩
  · intro s
    exact ⟨s.takenApart, s.releasedWithin⟩

end Abacus
