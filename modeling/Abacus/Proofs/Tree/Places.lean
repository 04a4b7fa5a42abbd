import Mathlib.Data.List.Basic
import Abacus.Proofs.Tree.Names

/-!
# Places in a tree

The *path* of a node is the list of child indices that lead to it.  A node alone does
not say where it stands, since equal subtrees may occur many times.  With its path it
does, and the two are a *place*.

The places of a tree come in the order of the walk (`Node.map_snd_places`).  They are
the paths that stay in the tree (`Node.mem_places_iff`), in lexicographic order with a
path in front of its extensions (`Node.ordered_places`).  So no path occurs twice.

A question that only some nodes answer, such as that for the name that is read, has its
`answers` listed with the paths of these nodes.
-/

namespace Abacus

namespace Node

/-! ## Induction over nodes -/

theorem size_le_totalSize {n : Node} {ns : List Node} (here : n ∈ ns) :
    n.size ≤ totalSize ns := by
  induction here with
  | head rest =>
    rw [totalSize_cons]
    exact Nat.le_add_right _ _
  | tail first _ ih =>
    rw [totalSize_cons]
    exact Nat.le_trans ih (Nat.le_add_left _ _)

theorem size_lt_of_mem_below {n child : Node} (here : child ∈ n.below) : child.size < n.size := by
  have below := size_le_totalSize here
  have whole := n.totalSize_below
  omega

theorem size_lt_of_mem_children {n : Node} {p : Role × Node} (here : p ∈ n.children) :
    p.2.size < n.size :=
  size_lt_of_mem_below (List.mem_map_of_mem here)

/-- Induction over nodes, with the hypothesis for every child. -/
@[elab_as_elim] theorem childInduction {motive : Node → Prop}
    (step : ∀ n, (∀ p ∈ n.children, motive p.2) → motive n) (n : Node) : motive n :=
  step n fun p _ => childInduction step p.2
termination_by n.size
decreasing_by exact size_lt_of_mem_children ‹_›

/-! ## Places -/

/-- What stands at a path below a child, seen from the parent. -/
def atChild {α : Type} (index : Nat) (p : List Nat × α) : List Nat × α := (index :: p.1, p.2)

/-- The nodes of a tree with their paths, in the order of the walk. -/
def places (n : Node) : List (List Nat × Node) :=
  ([], n) :: n.below.zipIdx.attach.flatMap fun p => p.1.1.places.map (atChild p.1.2)
termination_by n.size
decreasing_by exact size_lt_of_mem_below (List.fst_mem_of_mem_zipIdx p.2)

/-- The places below children that are counted from an index on. -/
def placesFrom (index : Nat) (ns : List Node) : List (List Nat × Node) :=
  (ns.zipIdx index).flatMap fun p => p.1.places.map (atChild p.2)

theorem placesFrom_nil (index : Nat) : placesFrom index [] = [] := rfl

theorem placesFrom_cons (index : Nat) (n : Node) (ns : List Node) :
    placesFrom index (n :: ns) = n.places.map (atChild index) ++ placesFrom (index + 1) ns := rfl

/-- The places of a tree are its root and the places below its children. -/
theorem places_eq (n : Node) : n.places = ([], n) :: placesFrom 0 n.below := by
  have plain : (n.below.zipIdx.attach.flatMap fun p => p.1.1.places.map (atChild p.1.2)) =
      placesFrom 0 n.below := by
    rw [placesFrom, ← List.attach_map_subtype_val n.below.zipIdx, List.flatMap_map,
      List.attach_map_subtype_val]
  rw [places, plain]

theorem places_binary (op : Operator) (l r : Expr) :
    (Node.expr (.binary op l r)).places =
      ([], .expr (.binary op l r)) ::
        ((Node.expr l).places.map (atChild 0) ++ (Node.expr r).places.map (atChild 1)) := by
  have below : (Node.expr (.binary op l r)).below = [.expr l, .expr r] := rfl
  rw [places_eq, below, placesFrom_cons, placesFrom_cons, placesFrom_nil, List.append_nil]

theorem places_assign (x : Variable) (e : Expr) :
    (Node.stmt (.assign x e)).places =
      ([], .stmt (.assign x e)) :: ([0], .var x) :: (Node.expr e).places.map (atChild 1) := by
  have below : (Node.stmt (.assign x e)).below = [.var x, .expr e] := rfl
  have target : (Node.var x).places = [([], .var x)] := by
    rw [places_eq]
    rfl
  rw [places_eq, below, placesFrom_cons, placesFrom_cons, placesFrom_nil, List.append_nil, target]
  rfl

theorem places_block (ss : List Stmt) :
    (Node.stmt (.block ss)).places =
      ([], .stmt (.block ss)) :: placesFrom 0 (ss.map .stmt) := by
  rw [places_eq, below_block]

theorem below_conditional (op : Comparison) (l r : Expr) (t : Stmt) (f : Option Stmt) :
    (Node.stmt (.conditional op l r t f)).below =
      .expr l :: .expr r :: .stmt t :: f.toList.map .stmt := by
  cases f <;> rfl

theorem places_conditional (op : Comparison) (l r : Expr) (t : Stmt) (f : Option Stmt) :
    (Node.stmt (.conditional op l r t f)).places =
      ([], .stmt (.conditional op l r t f)) ::
        ((Node.expr l).places.map (atChild 0) ++ ((Node.expr r).places.map (atChild 1) ++
          ((Node.stmt t).places.map (atChild 2) ++ placesFrom 3 (f.toList.map .stmt)))) := by
  rw [places_eq, below_conditional, placesFrom_cons, placesFrom_cons, placesFrom_cons]

theorem map_snd_placesFrom (index : Nat) {ns : List Node}
    (each : ∀ n ∈ ns, n.places.map Prod.snd = n.walk) :
    (placesFrom index ns).map Prod.snd = ns.flatMap walk := by
  induction ns generalizing index with
  | nil => rfl
  | cons n ns ih =>
    obtain ⟨first, others⟩ := List.forall_mem_cons.mp each
    have forget : Prod.snd ∘ atChild index = (Prod.snd : List Nat × Node → Node) := rfl
    rw [placesFrom_cons, List.map_append, List.map_map, forget, first, ih _ others,
      List.flatMap_cons]

/-- A walk visits the places in order. -/
theorem map_snd_places (n : Node) : n.places.map Prod.snd = n.walk := by
  induction n using childInduction with
  | step n ih =>
    have each : ∀ child ∈ n.below, child.places.map Prod.snd = child.walk :=
      List.forall_mem_map.mpr ih
    rw [places_eq, walk_eq, List.map_cons, map_snd_placesFrom 0 each]

/-- The places below children begin with an index of a child. -/
theorem exists_of_mem_placesFrom {index : Nat} {ns : List Node} {p : List Nat × Node}
    (here : p ∈ placesFrom index ns) : ∃ i path, index ≤ i ∧ p.1 = i :: path := by
  obtain ⟨⟨child, i⟩, counted, within⟩ := List.mem_flatMap.mp here
  obtain ⟨q, -, rfl⟩ := List.mem_map.mp within
  exact ⟨i, q.1, (List.mem_zipIdx counted).1, rfl⟩

/-- The places are the paths that stay in the tree, each with the node at its end. -/
theorem mem_places_iff {n m : Node} {path : List Nat} :
    (path, m) ∈ n.places ↔ n.at? path = some m := by
  induction path generalizing n with
  | nil =>
    have root : ([], m) ∉ placesFrom 0 n.below := by
      intro here
      obtain ⟨i, path, -, absurd⟩ := exists_of_mem_placesFrom here
      cases absurd
    rw [places_eq, List.mem_cons, or_iff_left root, at?, Option.some_inj, Prod.mk.injEq,
      eq_self, true_and]
    exact eq_comm
  | cons i path ih =>
    have child : (i :: path, m) ∈ n.places ↔ ∃ child, n.below[i]? = some child ∧
        (path, m) ∈ child.places := by
      rw [places_eq, List.mem_cons, or_iff_right (by simp), placesFrom, List.mem_flatMap]
      constructor
      · rintro ⟨⟨child, j⟩, counted, within⟩
        obtain ⟨q, there, same⟩ := List.mem_map.mp within
        cases same
        exact ⟨child, List.mem_zipIdx_iff_getElem?.mp counted, there⟩
      · rintro ⟨child, counted, there⟩
        exact ⟨(child, i), List.mem_zipIdx_iff_getElem?.mpr counted, List.mem_map_of_mem there⟩
    rw [child, below, List.getElem?_map, at?]
    cases n.children[i]? with
    | none => simp
    | some entry => simp [ih]

theorem ordered_placesFrom (index : Nat) {ns : List Node}
    (each : ∀ n ∈ ns, n.places.Pairwise fun p q => List.Lex (· < ·) p.1 q.1) :
    (placesFrom index ns).Pairwise fun p q => List.Lex (· < ·) p.1 q.1 := by
  induction ns generalizing index with
  | nil => exact .nil
  | cons n ns ih =>
    obtain ⟨first, others⟩ := List.forall_mem_cons.mp each
    rw [placesFrom_cons, List.pairwise_append]
    refine ⟨List.pairwise_map.mpr (first.imp .cons), ih _ others, ?_⟩
    intro p here q there
    obtain ⟨p, -, rfl⟩ := List.mem_map.mp here
    obtain ⟨i, path, above, same⟩ := exists_of_mem_placesFrom there
    rw [same]
    exact .rel above

/-- The places come in the lexicographic order of their paths. -/
theorem ordered_places (n : Node) : n.places.Pairwise fun p q => List.Lex (· < ·) p.1 q.1 := by
  induction n using childInduction with
  | step n ih =>
    rw [places_eq, List.pairwise_cons]
    refine ⟨?_, ordered_placesFrom 0 (List.forall_mem_map.mpr ih)⟩
    intro q there
    obtain ⟨i, path, -, same⟩ := exists_of_mem_placesFrom there
    rw [same]
    exact .nil

/-- No path of a tree occurs twice. -/
theorem nodup_paths (n : Node) : (n.places.map Prod.fst).Nodup := by
  refine List.pairwise_map.mpr (n.ordered_places.imp fun before same => ?_)
  exact List.lex_irrefl Nat.lt_irrefl _ (same ▸ before)

end Node

/-! ## Answers at places -/

section

variable {α β : Type} {f : α → Option β}

/-- The answers to a question, each with the path of what gives it. -/
def answers (f : α → Option β) (ps : List (List Nat × α)) : List (List Nat × β) :=
  ps.filterMap fun p => (f p.2).map (p.1, ·)

theorem answers_append (ps qs : List (List Nat × α)) :
    answers f (ps ++ qs) = answers f ps ++ answers f qs :=
  List.filterMap_append

theorem answers_cons (p : List Nat × α) (ps : List (List Nat × α)) :
    answers f (p :: ps) = ((f p.2).map (p.1, ·)).toList ++ answers f ps := by
  rw [answers, List.filterMap_cons]
  cases f p.2 with
  | none => rfl
  | some b => rfl

theorem answers_atChild (index : Nat) (ps : List (List Nat × α)) :
    answers f (ps.map (Node.atChild index)) = (answers f ps).map (Node.atChild index) := by
  rw [answers, answers, List.filterMap_map, List.map_filterMap]
  refine List.filterMap_congr fun p _ => ?_
  rw [Option.map_map]
  rfl

theorem map_snd_answers (ps : List (List Nat × α)) :
    (answers f ps).map Prod.snd = (ps.map Prod.snd).filterMap f := by
  rw [answers, List.map_filterMap, List.filterMap_map]
  refine List.filterMap_congr fun p _ => ?_
  rw [Option.map_map]
  exact Option.map_id'

theorem mem_answers_iff {path : List Nat} {b : β} {ps : List (List Nat × α)} :
    (path, b) ∈ answers f ps ↔ ∃ a, (path, a) ∈ ps ∧ f a = some b := by
  rw [answers, List.mem_filterMap]
  constructor
  · rintro ⟨⟨path, a⟩, here, answer⟩
    obtain ⟨c, given, same⟩ := Option.map_eq_some_iff.mp answer
    cases same
    exact ⟨a, here, given⟩
  · rintro ⟨a, here, given⟩
    exact ⟨(path, a), here, Option.map_eq_some_iff.mpr ⟨b, given, rfl⟩⟩

theorem map_fst_answers_sublist (ps : List (List Nat × α)) :
    ((answers f ps).map Prod.fst).Sublist (ps.map Prod.fst) := by
  induction ps with
  | nil => exact .slnil
  | cons p ps ih =>
    rw [answers_cons, List.map_append, List.map_cons]
    cases f p.2 with
    | none => exact ih.cons p.1
    | some b => exact ih.cons_cons p.1

end

/-- No node of a tree answers twice. -/
theorem Node.nodup_answers_places {β : Type} (f : Node → Option β) (n : Node) :
    ((answers f n.places).map Prod.fst).Nodup :=
  n.nodup_paths.sublist (map_fst_answers_sublist n.places)

end Abacus
