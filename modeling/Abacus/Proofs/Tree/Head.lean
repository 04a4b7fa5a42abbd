import Abacus.Inspect.Tree
import Abacus.Proofs.Number.ReadBack

/-!
# What a node shows of itself

The *head* of a node is the node without its children: its constructor and the
constant, name or operator that it carries.  Kind and attributes determine the
head up to one ambiguity.  A variable that is read and one that is assigned to
look the same, and are told apart by the family of the node only.

Nodes with the same head and the same children are equal (`SameHead.eq`), and
their children stand in the same families place by place
(`SameHead.family_children`).  So a tree can be rebuilt from the top: each head
tells the families that the next ones are read in.
-/

namespace Abacus

/-- A list is cut in one way where a predicate first fails. -/
theorem append_inj_of_all {α : Type} {p : α → Bool} {xs ys xs' ys' : List α}
    (all : ∀ x ∈ xs, p x = true) (stop : ys.takeWhile p = [])
    (all' : ∀ x ∈ xs', p x = true) (stop' : ys'.takeWhile p = [])
    (same : xs ++ ys = xs' ++ ys') : xs = xs' ∧ ys = ys' := by
  have first : xs = xs' := by
    have cut := congrArg (List.takeWhile p) same
    rwa [List.takeWhile_append_of_pos all, List.takeWhile_append_of_pos all', stop, stop',
      List.append_nil, List.append_nil] at cut
  subst first
  exact ⟨rfl, List.append_cancel_left same⟩

theorem all_of_notMem {c : Char} {cs : List Char} (absent : c ∉ cs) :
    ∀ d ∈ cs, (d != c) = true := by
  intro d here
  rw [bne_iff_ne]
  rintro rfl
  exact absent here

theorem takeWhile_ne_cons (c : Char) (cs : List Char) : (c :: cs).takeWhile (· != c) = [] := by
  rw [List.takeWhile_cons, bne_self_eq_false]
  rfl

/-- The name of an operation is that of no other. -/
theorem Operator.name_inj {op op' : Operator} (same : op.name = op'.name) : op = op' := by
  cases op <;> cases op' <;> simp [Operator.name] at same ⊢

/-- The name of a comparison is that of no other. -/
theorem Comparison.name_inj {op op' : Comparison} (same : op.name = op'.name) : op = op' := by
  cases op <;> cases op' <;> simp [Comparison.name] at same ⊢

namespace Node

/-! ## Heads -/

/-- Nodes that differ in their children only. -/
inductive SameHead : Node → Node → Prop where
  | const (c : Constant) : SameHead (.expr (.const c)) (.expr (.const c))
  | var (v : Variable) : SameHead (.expr (.var v)) (.expr (.var v))
  | binary (op : Operator) (l r l' r' : Expr) :
      SameHead (.expr (.binary op l r)) (.expr (.binary op l' r'))
  | assign (x : Variable) (e : Expr) (x' : Variable) (e' : Expr) :
      SameHead (.stmt (.assign x e)) (.stmt (.assign x' e'))
  | block (ss ss' : List Stmt) : SameHead (.stmt (.block ss)) (.stmt (.block ss'))
  | conditional (op : Comparison) (l r l' r' : Expr) (t t' : Stmt) (f f' : Option Stmt) :
      SameHead (.stmt (.conditional op l r t f)) (.stmt (.conditional op l' r' t' f'))
  | target (v : Variable) : SameHead (.var v) (.var v)

theorem SameHead.eq {n m : Node} (same : SameHead n m) (children : n.children = m.children) :
    n = m := by
  cases same with
  | const c => rfl
  | var v => rfl
  | binary op l r l' r' =>
    cases children
    rfl
  | assign x e x' e' =>
    cases children
    rfl
  | block ss ss' =>
    have below : (Node.stmt (.block ss)).below = (Node.stmt (.block ss')).below := by
      rw [Node.below, children, Node.below]
    rw [below_block, below_block] at below
    have statements : ss = ss' :=
      (List.map_inj_right fun s s' equal => Node.stmt.inj equal).mp below
    rw [statements]
  | conditional op l r l' r' t t' f f' =>
    cases f with
    | none =>
      cases f' with
      | none =>
        cases children
        rfl
      | some f' => cases children
    | some f =>
      cases f' with
      | none => cases children
      | some f' =>
        cases children
        rfl
  | target v => rfl

/-- The children of nodes with the same head are in the same families. -/
theorem SameHead.family_children {n m : Node} (same : SameHead n m) :
    ∀ q ∈ n.children.zip m.children, q.1.2.family = q.2.2.family := by
  cases same with
  | const c => exact List.forall_mem_nil _
  | var v => exact List.forall_mem_nil _
  | binary op l r l' r' => simp [children, family]
  | assign x e x' e' => simp [children, family]
  | block ss ss' =>
    rintro ⟨⟨role, n⟩, role', m⟩ here
    obtain ⟨left, right⟩ := List.of_mem_zip here
    obtain ⟨⟨s, i⟩, -, first⟩ := List.mem_map.mp left
    obtain ⟨⟨s', i'⟩, -, second⟩ := List.mem_map.mp right
    cases first
    cases second
    rfl
  | conditional op l r l' r' t t' f f' =>
    cases f with
    | none => simp [children, family]
    | some f =>
      cases f' with
      | none => simp [children, family]
      | some f' => simp [children, family]
  | target v => exact List.forall_mem_nil _

/-! ## Kind and attributes -/

theorem isAlpha_of_mem_kind {n : Node} {c : Char} (here : c ∈ n.kind.toList) :
    c.isAlpha = true := by
  have all : n.kind.toList.all Char.isAlpha = true := by
    unfold kind
    split <;> rfl
  exact List.all_eq_true.mp all c here

theorem kind_ne_nil (n : Node) : n.kind.toList ≠ [] := by
  unfold kind
  split <;> exact List.cons_ne_nil _ _

/-- A summary shows where the kind ends. -/
theorem kind_eq_of_summary_eq {n m : Node} (same : n.summary = m.summary) :
    n.kind = m.kind ∧ n.attributes = m.attributes := by
  have kind : ∀ n : Node, '(' ∉ n.kind.toList := by
    intro n here
    cases isAlpha_of_mem_kind here
  have attributes : ∀ n : Node, n.attributes.toList.takeWhile (· != '(') = [] := by
    intro n
    have opened : ∀ key s : String, key.toList.head? = some '(' →
        (key ++ s ++ ")").toList.takeWhile (· != '(') = [] := by
      intro key s first
      obtain ⟨rest, key_eq⟩ := List.head?_eq_some_iff.mp first
      rw [String.toList_append, String.toList_append, key_eq]
      exact takeWhile_ne_cons '(' _
    unfold Node.attributes
    split
    · exact opened _ _ rfl
    · exact opened _ _ rfl
    · exact opened _ _ rfl
    · rfl
    · rfl
    · exact opened _ _ rfl
    · exact opened _ _ rfl
  have chars := congrArg String.toList same
  rw [summary, summary, String.toList_append, String.toList_append] at chars
  obtain ⟨kinds, rest⟩ := append_inj_of_all (all_of_notMem (kind n)) (attributes n)
    (all_of_notMem (kind m)) (attributes m) chars
  exact ⟨String.toList_inj.mp kinds, String.toList_inj.mp rest⟩

theorem enclosed_inj {key s t : String} (same : key ++ s ++ ")" = key ++ t ++ ")") : s = t :=
  (String.append_right_inj key).mp ((String.append_left_inj ")").mp same)

/-- Within a family, kind and attributes determine the head. -/
theorem sameHead_of_kind {n m : Node} (family : n.family = m.family) (kind : n.kind = m.kind)
    (attributes : n.attributes = m.attributes) : SameHead n m := by
  have names : ∀ v w : Variable, v.name = w.name → v = w := by
    rintro ⟨name⟩ ⟨name'⟩ rfl
    rfl
  cases n with
  | expr e =>
    cases m with
    | expr e' =>
      cases e with
      | const c =>
        cases e' with
        | const c' =>
          rw [Constant.eq_of_text_eq NumberStyle.readable_inspection (enclosed_inj attributes)]
          exact .const c'
        | _ => simp [Node.kind] at kind
      | var v =>
        cases e' with
        | var v' =>
          rw [names v v' (enclosed_inj attributes)]
          exact .var v'
        | _ => simp [Node.kind] at kind
      | binary op l r =>
        cases e' with
        | binary op' l' r' =>
          rw [Operator.name_inj (enclosed_inj attributes)]
          exact .binary op' l r l' r'
        | _ => simp [Node.kind] at kind
    | _ => simp [Node.family] at family
  | stmt s =>
    cases m with
    | stmt s' =>
      cases s with
      | assign x e =>
        cases s' with
        | assign x' e' => exact .assign x e x' e'
        | _ => simp [Node.kind] at kind
      | block ss =>
        cases s' with
        | block ss' => exact .block ss ss'
        | _ => simp [Node.kind] at kind
      | conditional op l r t f =>
        cases s' with
        | conditional op' l' r' t' f' =>
          rw [Comparison.name_inj (enclosed_inj attributes)]
          exact .conditional op' l r l' r' t t' f f'
        | _ => simp [Node.kind] at kind
    | _ => simp [Node.family] at family
  | var v =>
    cases m with
    | var v' =>
      rw [names v v' (enclosed_inj attributes)]
      exact .target v'
    | _ => simp [Node.family] at family

end Node

end Abacus
