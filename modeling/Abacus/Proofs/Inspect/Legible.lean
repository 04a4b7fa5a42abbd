import Abacus.Proofs.Text.Quoted
import Abacus.Proofs.Tree.Head

/-!
# Inspection texts decide equality

Trees are equal when their inspection texts are, on a single line and over several
lines.  Names do not interfere, whatever characters they have, since they are quoted.

The two texts of a value differ in what is put around the members of a group, which is a
`Spacing`, and are otherwise made in the same way (`Datum.lay`).  What is proved of all
spacings is proved of both texts.

Two writings are *legible* up to a proposition if, where they are the same with anything
behind them, the proposition holds and the same stands behind them (`Legible`).  That
they end at the same place is what makes this compose.  The members of a group are read
one after the other, and only lists can have different lengths.  There the spacing has to
tell the next member from the end.
-/

namespace Abacus

/-! ## Spacings -/

/-- What is put around the members of a group. -/
structure Spacing where
  /-- What stands between the opening bracket of a group and its first member. -/
  first : Brackets → Nat → List Char
  /-- What stands between two members. -/
  next : Nat → List Char
  /-- What stands between the last member and the closing bracket. -/
  last : Brackets → Nat → List Char
  /-- A list that has members does not look empty. -/
  notMem_first : ∀ depth, ']' ∉ first .list depth
  /-- A list that goes on does not look as if it ended. -/
  next_ne_last : ∀ depth rest rest', next depth ++ rest ≠ last .list depth ++ ']' :: rest'

/-- The spacing of a single line. -/
def Spacing.compact : Spacing where
  first b _ := b.gap.toList
  next _ := [',', ' ']
  last b _ := b.gap.toList
  notMem_first _ := List.not_mem_nil
  next_ne_last := by simp [Brackets.gap]

theorem margin_succ (depth : Nat) :
    (Datum.margin (depth + 1)).toList = (Datum.margin depth).toList ++ [' ', ' ', ' ', ' '] := by
  rw [Datum.margin, Datum.margin, String.toList_ofList, String.toList_ofList, Nat.mul_succ,
    List.replicate_add]
  rfl

/-- The spacing over several lines. -/
def Spacing.expanded : Spacing where
  first _ depth := '\n' :: (Datum.margin (depth + 1)).toList
  next depth := ',' :: '\n' :: (Datum.margin (depth + 1)).toList
  last _ depth := ',' :: '\n' :: (Datum.margin depth).toList
  notMem_first depth := by simp [Datum.margin]
  next_ne_last depth rest rest' := by simp [margin_succ]

/-- A text with a rest behind it, with every spacing and at every depth. -/
abbrev Writing := Spacing → Nat → List Char → List Char

namespace Datum

mutual

/-- The text of a value with a spacing, and the rest that stands behind it. -/
def lay : Datum → Writing
  | .word text, _, _, rest => text.toList ++ rest
  | .labelled label value, S, depth, rest => label.toList ++ ':' :: ' ' :: value.lay S depth rest
  | .group b [], _, _, rest => b.opening.toList ++ (b.closing.toList ++ rest)
  | .group b (m :: ms), S, depth, rest =>
    b.opening.toList ++ (S.first b depth ++ m.lay S (depth + 1) (layRest b ms S depth rest))

/-- The text of a group after its first member. -/
def layRest (b : Brackets) : List Datum → Writing
  | [], S, depth, rest => S.last b depth ++ (b.closing.toList ++ rest)
  | m :: ms, S, depth, rest => S.next depth ++ m.lay S (depth + 1) (layRest b ms S depth rest)

end

mutual

theorem lay_compact (depth : Nat) :
    ∀ (d : Datum) (rest : List Char), d.lay .compact depth rest = d.compact.toList ++ rest
  | .word text, rest => by rw [lay, compact]
  | .labelled label value, rest => by
    rw [lay, compact, lay_compact depth value]
    simp
  | .group b [], rest => by
    rw [lay, compact]
    simp
  | .group b (m :: ms), rest => by
    rw [lay, compact, lay_compact (depth + 1) m, layRest_compact depth b ms]
    simp [Spacing.compact]

theorem layRest_compact (depth : Nat) (b : Brackets) :
    ∀ (ms : List Datum) (rest : List Char), layRest b ms .compact depth rest =
      (compactRest ms).toList ++ (b.gap.toList ++ (b.closing.toList ++ rest))
  | [], rest => by
    rw [layRest, compactRest]
    rfl
  | m :: ms, rest => by
    rw [layRest, compactRest, lay_compact (depth + 1) m, layRest_compact depth b ms]
    simp [Spacing.compact]

end

mutual

theorem lay_expanded (depth : Nat) :
    ∀ (d : Datum) (rest : List Char), d.lay .expanded depth rest = (d.expanded depth).toList ++ rest
  | .word text, rest => by rw [lay, expanded]
  | .labelled label value, rest => by
    rw [lay, expanded, lay_expanded depth value]
    simp
  | .group b [], rest => by
    rw [lay, expanded]
    simp
  | .group b (m :: ms), rest => by
    rw [lay, expanded, expandedMembers, lay_expanded (depth + 1) m, layRest_expanded depth b ms]
    simp [Spacing.expanded]

/-- A line ends behind its member.  In the spacing the end belongs to what follows. -/
theorem layRest_expanded (depth : Nat) (b : Brackets) :
    ∀ (ms : List Datum) (rest : List Char), layRest b ms .expanded depth rest =
      ',' :: '\n' :: ((expandedMembers (depth + 1) ms).toList ++
        ((margin depth).toList ++ (b.closing.toList ++ rest)))
  | [], rest => by
    rw [layRest, expandedMembers]
    rfl
  | m :: ms, rest => by
    rw [layRest, expandedMembers, lay_expanded (depth + 1) m, layRest_expanded depth b ms]
    simp [Spacing.expanded]

end

end Datum

/-! ## Legible writings -/

/-- If two writings with anything behind them are the same, the proposition holds and the
same stands behind them. -/
def Legible (w w' : Writing) (p : Prop) : Prop :=
  ∀ (S : Spacing) (depth : Nat) (rest rest' : List Char),
    w S depth rest = w' S depth rest' → p ∧ rest = rest'

namespace Legible

variable {w w' : Writing} {p q : Prop}

theorem imp (legible : Legible w w' p) (follows : p → q) : Legible w w' q := by
  intro S depth rest rest' same
  obtain ⟨holds, behind⟩ := legible S depth rest rest' same
  exact ⟨follows holds, behind⟩

theorem symm (legible : Legible w w' p) : Legible w' w p := by
  intro S depth rest rest' same
  obtain ⟨holds, behind⟩ := legible S depth rest' rest same.symm
  exact ⟨holds, behind.symm⟩

end Legible

namespace Datum

/-- The first character of a value. -/
def lead : Datum → Option Char
  | .word text => text.toList.head?
  | .labelled label _ => label.toList.head?
  | .group b _ => b.opening.toList.head?

theorem head?_lay {d : Datum} {c : Char} (lead : d.lead = some c) (S : Spacing) (depth : Nat)
    (rest : List Char) : (d.lay S depth rest).head? = some c := by
  have starts : ∀ cs more : List Char, cs.head? = some c → (cs ++ more).head? = some c := by
    intro cs more head
    rw [List.head?_append, head]
    rfl
  cases d with
  | word text =>
    rw [lay]
    exact starts _ _ lead
  | labelled label value =>
    rw [lay]
    exact starts _ _ lead
  | group b ms =>
    cases ms with
    | nil =>
      rw [lay]
      exact starts _ _ lead
    | cons m ms =>
      rw [lay]
      exact starts _ _ lead

variable {d d' m m' : Datum} {ms ms' : List Datum} {b : Brackets} {p q : Prop}

/-- Values that start with different characters have different texts. -/
theorem legible_of_lead_ne {c c' : Char} (lead : d.lead = some c) (lead' : d'.lead = some c')
    (different : c ≠ c') : Legible d.lay d'.lay p := by
  intro S depth rest rest' same
  have heads := congrArg List.head? same
  rw [head?_lay lead, head?_lay lead'] at heads
  exact absurd (Option.some.inj heads) different

theorem legible_word {text text' : String}
    (legible : ∀ rest rest', text.toList ++ rest = text'.toList ++ rest' → p ∧ rest = rest') :
    Legible (Datum.word text).lay (Datum.word text').lay p := by
  intro S depth rest rest' same
  rw [lay, lay] at same
  exact legible rest rest' same

theorem legible_labelled {label : String} (value : Legible d.lay d'.lay p) :
    Legible (Datum.labelled label d).lay (Datum.labelled label d').lay p := by
  intro S depth rest rest' same
  rw [lay, lay] at same
  have values := List.append_cancel_left same
  exact value S depth rest rest' (List.cons.inj (List.cons.inj values).2).2

/-! Groups are read member by member. -/

theorem legible_nil : Legible (Datum.group b []).lay (Datum.group b []).lay True := by
  intro S depth rest rest' same
  rw [lay, lay] at same
  exact ⟨trivial, List.append_cancel_left (List.append_cancel_left same)⟩

theorem legible_cons (member : Legible m.lay m'.lay p)
    (later : Legible (layRest b ms) (layRest b ms') q) :
    Legible (Datum.group b (m :: ms)).lay (Datum.group b (m' :: ms')).lay (p ∧ q) := by
  intro S depth rest rest' same
  rw [lay, lay] at same
  obtain ⟨first, more⟩ :=
    member S _ _ _ (List.append_cancel_left (List.append_cancel_left same))
  obtain ⟨others, behind⟩ := later S depth rest rest' more
  exact ⟨⟨first, others⟩, behind⟩

theorem legible_rest_nil : Legible (layRest b []) (layRest b []) True := by
  intro S depth rest rest' same
  rw [layRest, layRest] at same
  exact ⟨trivial, List.append_cancel_left (List.append_cancel_left same)⟩

theorem legible_rest_cons (member : Legible m.lay m'.lay p)
    (later : Legible (layRest b ms) (layRest b ms') q) :
    Legible (layRest b (m :: ms)) (layRest b (m' :: ms')) (p ∧ q) := by
  intro S depth rest rest' same
  rw [layRest, layRest] at same
  obtain ⟨first, more⟩ := member S _ _ _ (List.append_cancel_left same)
  obtain ⟨others, behind⟩ := later S depth rest rest' more
  exact ⟨⟨first, others⟩, behind⟩

/-- A group of one member is as legible as the member. -/
theorem legible_singleton (member : Legible m.lay m'.lay p) :
    Legible (Datum.group b [m]).lay (Datum.group b [m']).lay p :=
  (legible_cons member legible_rest_nil).imp And.left

/-- A list that has no members and one that has some have different texts. -/
theorem legible_list_nil_cons {c : Char} (lead : m.lead = some c) (different : c ≠ ']') :
    Legible (Datum.group .list []).lay (Datum.group .list (m :: ms)).lay p := by
  intro S depth rest rest' same
  rw [lay, lay] at same
  have heads := congrArg List.head? (List.append_cancel_left same)
  rw [List.head?_append, List.head?_append, head?_lay lead] at heads
  cases first : (S.first .list depth).head? with
  | none =>
    rw [first] at heads
    exact absurd (Option.some.inj heads).symm different
  | some d =>
    rw [first] at heads
    cases heads
    exact absurd (List.mem_of_head? first) (S.notMem_first depth)

/-- A list that ends and one that goes on have different texts. -/
theorem legible_rest_nil_cons : Legible (layRest .list []) (layRest .list (m :: ms)) p := by
  intro S depth rest rest' same
  rw [layRest, layRest] at same
  exact absurd same.symm (S.next_ne_last depth _ _)

end Datum

/-! ## The shapes of trees -/

open Datum

theorem lead_inVariant (variant : String) (content : Datum) :
    (inVariant variant content).lead = some (variant.toList.headD '(') := by
  rw [inVariant, Datum.lead, Brackets.opening, String.toList_append, List.head?_append]
  cases variant.toList <;> rfl

/-- Variants with different initials are told apart. -/
theorem legible_variants (variant variant' : String) {content content' : Datum} {p : Prop}
    (different : variant.toList.headD '(' ≠ variant'.toList.headD '(') :
    Legible (inVariant variant content).lay (inVariant variant' content').lay p :=
  legible_of_lead_ne (lead_inVariant ..) (lead_inVariant ..) different

theorem Operator.legible (op op' : Operator) : Legible op.datum.lay op'.datum.lay (op = op') := by
  refine legible_word fun rest rest' same => ?_
  cases op <;> cases op' <;> simp [Operator.label] at same ⊢ <;> exact same

theorem Comparison.legible (op op' : Comparison) :
    Legible op.datum.lay op'.datum.lay (op = op') := by
  refine legible_word fun rest rest' same => ?_
  cases op <;> cases op' <;> simp [Comparison.label] at same ⊢ <;> exact same

/-- A number ends where its parenthesis is closed. -/
theorem Constant.legible (c d : Constant) : Legible c.datum.lay d.datum.lay (c = d) := by
  refine legible_word fun rest rest' same => ?_
  have closing : ∀ x : Binary64, ∀ e ∈ (x.text .inspection).toList, (e != ')') = true :=
    fun x => all_of_notMem (x.notMem_text rfl rfl (by decide) (by decide))
  simp only [String.toList_append, List.append_assoc] at same
  obtain ⟨numbers, behind⟩ := append_inj_of_all (closing c.value) (takeWhile_ne_cons ')' _)
    (closing d.value) (takeWhile_ne_cons ')' _) (List.append_cancel_left same)
  exact ⟨Constant.eq_of_text_eq NumberStyle.readable_inspection (String.toList_inj.mp numbers),
    (List.cons.inj behind).2⟩

theorem Variable.legible (v w : Variable) : Legible v.datum.lay w.datum.lay (v = w) := by
  have name : Legible (textDatum v.name).lay (textDatum w.name).lay (v.name = w.name) :=
    legible_word fun rest rest' same => quoted_append_inj same
  refine (legible_singleton (legible_labelled name)).imp fun same => ?_
  cases v
  cases w
  exact congrArg Variable.mk same

theorem Expr.legible (e f : Expr) : Legible e.datum.lay f.datum.lay (e = f) := by
  induction e generalizing f with
  | const c =>
    cases f with
    | const d => exact (legible_singleton (c.legible d)).imp (congrArg Expr.const)
    | var w => exact legible_variants "Constant" "Variable" (by decide)
    | binary op l r => exact legible_variants "Constant" "Binary" (by decide)
  | var v =>
    cases f with
    | const d => exact legible_variants "Variable" "Constant" (by decide)
    | var w => exact (legible_singleton (v.legible w)).imp (congrArg Expr.var)
    | binary op l r => exact legible_variants "Variable" "Binary" (by decide)
  | binary op l r ihl ihr =>
    cases f with
    | const d => exact legible_variants "Binary" "Constant" (by decide)
    | var w => exact legible_variants "Binary" "Variable" (by decide)
    | binary op' l' r' =>
      refine (legible_singleton (legible_cons (legible_labelled (op.legible op'))
        (legible_rest_cons (legible_labelled (ihl l'))
        (legible_rest_cons (legible_labelled (ihr r')) legible_rest_nil)))).imp ?_
      rintro ⟨rfl, rfl, rfl, -⟩
      rfl

theorem Stmt.listData_eq (ss : List Stmt) : Stmt.listData ss = ss.map Stmt.datum := by
  induction ss with
  | nil => rfl
  | cons s ss ih =>
    rw [Stmt.listData, ih]
    rfl

/-- The initial of a statement's variant. -/
theorem Stmt.exists_lead (s : Stmt) : ∃ c, s.datum.lead = some c ∧ c ≠ ']' := by
  refine ⟨_, lead_inVariant s.variant s.content, ?_⟩
  cases s with
  | assign x e => exact (by decide : "Assignment".toList.headD '(' ≠ ']')
  | block ss => exact (by decide : "Block".toList.headD '(' ≠ ']')
  | conditional op l r t f => exact (by decide : "Conditional".toList.headD '(' ≠ ']')

theorem Stmt.legibleRest (ss ts : List Stmt)
    (each : ∀ s ∈ ss, ∀ t : Stmt, Legible s.datum.lay t.datum.lay (s = t)) :
    Legible (layRest .list (ss.map Stmt.datum)) (layRest .list (ts.map Stmt.datum)) (ss = ts) := by
  induction ss generalizing ts with
  | nil =>
    cases ts with
    | nil => exact legible_rest_nil.imp fun _ => rfl
    | cons t ts => exact legible_rest_nil_cons
  | cons s ss ih =>
    cases ts with
    | nil => exact legible_rest_nil_cons.symm
    | cons t ts =>
      have first := each s (List.mem_cons_self ..) t
      have later := ih ts fun u there => each u (List.mem_cons_of_mem _ there)
      refine (legible_rest_cons first later).imp ?_
      rintro ⟨rfl, rfl⟩
      rfl

theorem Stmt.legible_list (ss ts : List Stmt)
    (each : ∀ s ∈ ss, ∀ t : Stmt, Legible s.datum.lay t.datum.lay (s = t)) :
    Legible (group .list (ss.map Stmt.datum)).lay (group .list (ts.map Stmt.datum)).lay (ss = ts) := by
  cases ss with
  | nil =>
    cases ts with
    | nil => exact legible_nil.imp fun _ => rfl
    | cons t ts =>
      obtain ⟨c, lead, different⟩ := t.exists_lead
      exact legible_list_nil_cons lead different
  | cons s ss =>
    cases ts with
    | nil =>
      obtain ⟨c, lead, different⟩ := s.exists_lead
      exact (legible_list_nil_cons lead different).symm
    | cons t ts =>
      have first := each s (List.mem_cons_self ..) t
      have later := Stmt.legibleRest ss ts fun u there => each u (List.mem_cons_of_mem _ there)
      refine (legible_cons first later).imp ?_
      rintro ⟨rfl, rfl⟩
      rfl

theorem Stmt.legible_option (f g : Option Stmt)
    (each : ∀ s ∈ f, ∀ t : Stmt, Legible s.datum.lay t.datum.lay (s = t)) :
    Legible (Stmt.optionDatum f).lay (Stmt.optionDatum g).lay (f = g) := by
  cases f with
  | none =>
    cases g with
    | none => exact legible_word fun rest rest' same => ⟨rfl, List.append_cancel_left same⟩
    | some t => exact legible_of_lead_ne rfl (lead_inVariant "Some" _) (by decide)
  | some s =>
    cases g with
    | none => exact legible_of_lead_ne (lead_inVariant "Some" _) rfl (by decide)
    | some t => exact (legible_singleton (each s rfl t)).imp (congrArg some)

theorem Stmt.legible (s t : Stmt) : Legible s.datum.lay t.datum.lay (s = t) := by
  induction s using Stmt.nestedInduction generalizing t with
  | assign x e =>
    cases t with
    | assign y f =>
      refine (legible_singleton (legible_cons (legible_labelled (x.legible y))
        (legible_rest_cons (legible_labelled (e.legible f)) legible_rest_nil))).imp ?_
      rintro ⟨rfl, rfl, -⟩
      rfl
    | block ts => exact legible_variants "Assignment" "Block" (by decide)
    | conditional op l r t f => exact legible_variants "Assignment" "Conditional" (by decide)
  | block ss ih =>
    cases t with
    | assign y f => exact legible_variants "Block" "Assignment" (by decide)
    | block ts =>
      have statements := Stmt.legible_list ss ts ih
      rw [← Stmt.listData_eq, ← Stmt.listData_eq] at statements
      exact (legible_singleton (legible_singleton (legible_labelled statements))).imp
        (congrArg Stmt.block)
    | conditional op l r t f => exact legible_variants "Block" "Conditional" (by decide)
  | conditional op l r t f iht ihf =>
    cases t with
    | assign y f => exact legible_variants "Conditional" "Assignment" (by decide)
    | block ts => exact legible_variants "Conditional" "Block" (by decide)
    | conditional op' l' r' t' f' =>
      refine (legible_singleton (legible_cons (legible_labelled (op.legible op'))
        (legible_rest_cons (legible_labelled (l.legible l'))
        (legible_rest_cons (legible_labelled (r.legible r'))
        (legible_rest_cons (legible_labelled (iht t'))
        (legible_rest_cons (legible_labelled (Stmt.legible_option f f' ihf))
          legible_rest_nil)))))).imp ?_
      rintro ⟨rfl, rfl, rfl, rfl, rfl, -⟩
      rfl

theorem Node.legible (m n : Node) : Legible m.datum.lay n.datum.lay (m = n) := by
  cases m with
  | expr e =>
    cases n with
    | expr f => exact (legible_singleton (e.legible f)).imp (congrArg Node.expr)
    | stmt t => exact legible_variants "Expr" "Stmt" (by decide)
    | var w => exact legible_variants "Expr" "Variable" (by decide)
  | stmt s =>
    cases n with
    | expr f => exact legible_variants "Stmt" "Expr" (by decide)
    | stmt t => exact (legible_singleton (s.legible t)).imp (congrArg Node.stmt)
    | var w => exact legible_variants "Stmt" "Variable" (by decide)
  | var v =>
    cases n with
    | expr f => exact legible_variants "Variable" "Expr" (by decide)
    | stmt t => exact legible_variants "Variable" "Stmt" (by decide)
    | var w => exact (legible_singleton (v.legible w)).imp (congrArg Node.var)

/-! ## The texts -/

/-- Things with legible shapes are known from each of the two texts. -/
theorem eq_iff_texts_eq {α : Type} (datum : α → Datum) {a b : α}
    (legible : Legible (datum a).lay (datum b).lay (a = b)) :
    (a = b ↔ (datum a).compact = (datum b).compact) ∧
    (a = b ↔ (datum a).expanded 0 = (datum b).expanded 0) := by
  refine ⟨⟨fun same => same ▸ rfl, fun same => ?_⟩, ⟨fun same => same ▸ rfl, fun same => ?_⟩⟩
  · refine (legible .compact 0 [] [] ?_).1
    rw [lay_compact, lay_compact, same]
  · refine (legible .expanded 0 [] [] ?_).1
    rw [lay_expanded, lay_expanded, same]

/-- Trees of a family are equal exactly if their texts on a single line are the same, and
exactly if their texts over several lines are.  Nodes of different families are different,
and so are their texts. -/
theorem equal_iff_inspected_alike :
    (∀ e f : Expr, (e = f ↔ e.datum.compact = f.datum.compact) ∧
      (e = f ↔ e.datum.expanded 0 = f.datum.expanded 0)) ∧
    (∀ s t : Stmt, (s = t ↔ s.datum.compact = t.datum.compact) ∧
      (s = t ↔ s.datum.expanded 0 = t.datum.expanded 0)) ∧
    (∀ v w : Variable, (v = w ↔ v.datum.compact = w.datum.compact) ∧
      (v = w ↔ v.datum.expanded 0 = w.datum.expanded 0)) ∧
    (∀ m n : Node, (m = n ↔ m.datum.compact = n.datum.compact) ∧
      (m = n ↔ m.datum.expanded 0 = n.datum.expanded 0)) ∧
    ∀ m n : Node, m.family ≠ n.family →
      m ≠ n ∧ m.datum.compact ≠ n.datum.compact ∧ m.datum.expanded 0 ≠ n.datum.expanded 0 := by
  have node := fun m n : Node => eq_iff_texts_eq Node.datum (m.legible n)
  refine ⟨fun e f => eq_iff_texts_eq Expr.datum (e.legible f),
    fun s t => eq_iff_texts_eq Stmt.datum (s.legible t),
    fun v w => eq_iff_texts_eq Variable.datum (v.legible w), node, ?_⟩
  intro m n families
  have different : m ≠ n := fun same => families (congrArg Node.family same)
  exact ⟨different, mt (node m n).1.mpr different, mt (node m n).2.mpr different⟩

/-- A name that imitates the text around it, and nodes that differ in their family only. -/
theorem equal_iff_inspected_alike_imitation :
    let plain : Expr := .binary .addition (.var ⟨"x"⟩) (.var ⟨"y"⟩)
    let name := "x\" \x7d), rhs: Variable(Variable \x7b name: \"y"
    let imitation : Expr := .binary .addition (.var ⟨name⟩) (.var ⟨"y"⟩)
    plain.datum.compact ≠ imitation.datum.compact ∧
    plain.datum.expanded 0 ≠ imitation.datum.expanded 0 ∧
    (Node.expr (.var ⟨"x"⟩)).datum.compact ≠ (Node.var ⟨"x"⟩).datum.compact := by
  intro plain name imitation
  have different : plain ≠ imitation := by simp [plain, imitation, name]
  obtain ⟨expr, -, -, -, families⟩ := equal_iff_inspected_alike
  exact ⟨mt (expr plain imitation).1.mpr different, mt (expr plain imitation).2.mpr different,
    (families (.expr (.var ⟨"x"⟩)) (.var ⟨"x"⟩) (by decide)).2.1⟩

end Abacus
