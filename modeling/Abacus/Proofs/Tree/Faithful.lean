import Abacus.Proofs.Tree.Head
import Abacus.Proofs.Tree.Outline

/-!
# An outline shows the whole tree

Trees of one family with the same outline are equal, whatever their names are
made of, line breaks apart.  The outline is taken apart in three steps.

* The text is cut into lines at the line breaks (`lines_inj`).
* A line is cut into its depth and its label behind the leading spaces, since no
  label begins with a space (`Visit.readLine_line`).
* The list of depths and labels is cut into trees where the depth returns to
  that of the first entry (`entriesBelow_inj`).

Nothing in the text delimits the number of statements of a block, an absent else
part or the target of an assignment.  The depth does that for the first two, and
the head of the parent for the third.
-/

namespace Abacus

/-! ## Lines -/

/-- A text tells its lines. -/
theorem lines_inj {lines lines' : List (List Char)} (plain : ∀ line ∈ lines, '\n' ∉ line)
    (plain' : ∀ line ∈ lines', '\n' ∉ line)
    (same : (lines.flatMap fun line => line ++ ['\n']) =
      lines'.flatMap fun line => line ++ ['\n']) : lines = lines' := by
  induction lines generalizing lines' with
  | nil =>
    cases lines' with
    | nil => rfl
    | cons line' lines' => simp at same
  | cons line lines ih =>
    cases lines' with
    | nil => simp at same
    | cons line' lines' =>
      obtain ⟨first, others⟩ := List.forall_mem_cons.mp plain
      obtain ⟨first', others'⟩ := List.forall_mem_cons.mp plain'
      rw [List.flatMap_cons, List.flatMap_cons, List.append_assoc, List.append_assoc] at same
      obtain ⟨equal, rest⟩ := append_inj_of_all (all_of_notMem first) (takeWhile_ne_cons _ _)
        (all_of_notMem first') (takeWhile_ne_cons _ _) same
      rw [equal, ih others others' (List.cons.inj rest).2]

/-! ## Labels -/

/-- The name of a role ends before the first colon. -/
theorem colon_notMem_name (role : Role) : ':' ∉ role.name.toList := by
  intro here
  cases Role.isAlphanum_of_mem_name here

theorem Role.name_ne_nil (role : Role) : role.name.toList ≠ [] := by
  cases role with
  | statement index =>
    rw [Role.toList_name_statement]
    exact Nat.toDigits_ne_nil
  | _ => exact List.cons_ne_nil _ _

/-- The name of a role is that of no other. -/
theorem Role.name_inj {role role' : Role} (same : role.name = role'.name) : role = role' := by
  -- an index is made of digits and a word is not
  have apart : ∀ (index : Nat) (name : String), readDigits name.toList = none →
      (Role.statement index).name ≠ name := by
    intro index name word equal
    rw [← equal, Role.toList_name_statement, readDigits_toDigits] at word
    cases word
  cases role with
  | statement index =>
    cases role' with
    | statement index' =>
      have digits := congrArg (fun name => readDigits name.toList) same
      simp only [Role.toList_name_statement, readDigits_toDigits] at digits
      rw [Option.some.inj digits]
    | _ => exact absurd same (apart index _ (by decide))
  | _ =>
    cases role' with
    | statement index' => exact absurd same.symm (apart index' _ (by decide))
    | _ => simp [Role.name] at same ⊢

namespace Visit

/-- A label tells the role and the summary, if it is known whether there is a role. -/
theorem eq_of_label_eq {v w : Visit} (both : v.role.isSome = w.role.isSome)
    (same : v.label = w.label) : v.role = w.role ∧ v.node.summary = w.node.summary := by
  obtain ⟨d, role, n⟩ := v
  obtain ⟨d', role', n'⟩ := w
  simp only [label, String.toList_append] at same
  cases role with
  | none =>
    cases role' with
    | none => exact ⟨rfl, String.toList_inj.mp same⟩
    | some role' => cases both
  | some role =>
    cases role' with
    | none => cases both
    | some role' =>
      have colon : ": ".toList = ':' :: [' '] := rfl
      simp only [OutlineTask.lead, String.toList_append, List.append_assoc, colon,
        List.cons_append, List.nil_append] at same
      obtain ⟨names, rest⟩ := append_inj_of_all (all_of_notMem (colon_notMem_name role))
        (takeWhile_ne_cons ':' _) (all_of_notMem (colon_notMem_name role'))
        (takeWhile_ne_cons ':' _) same
      refine ⟨?_, String.toList_inj.mp (List.cons.inj (List.cons.inj rest).2).2⟩
      exact congrArg some (Role.name_inj (String.toList_inj.mp names))

/-- No label begins with a space. -/
theorem takeWhile_space_label (v : Visit) : v.label.takeWhile (· == ' ') = [] := by
  have begins : ∀ cs ds : List Char, cs ≠ [] → ' ' ∉ cs → (cs ++ ds).takeWhile (· == ' ') = [] := by
    intro cs ds some absent
    obtain ⟨c, cs, rfl⟩ := List.exists_cons_of_ne_nil some
    have other : (c == ' ') = false := by
      apply beq_false_of_ne
      rintro rfl
      exact absent (List.mem_cons_self ..)
    rw [List.cons_append, List.takeWhile_cons, other]
    rfl
  obtain ⟨d, role, n⟩ := v
  rw [label, Node.summary, String.toList_append, String.toList_append]
  cases role with
  | none =>
    apply begins _ _ n.kind_ne_nil
    intro here
    cases Node.isAlpha_of_mem_kind here
  | some role =>
    rw [OutlineTask.lead, String.toList_append, List.append_assoc]
    apply begins _ _ role.name_ne_nil
    intro here
    cases Role.isAlphanum_of_mem_name here

/-- What a line tells: the depth and the label of a place. -/
def entry (v : Visit) : Nat × List Char := (v.depth, v.label)

/-- Cuts a line behind its leading spaces. -/
def readLine (line : List Char) : Nat × List Char :=
  ((line.takeWhile (· == ' ')).length / 2, line.dropWhile (· == ' '))

theorem readLine_line (v : Visit) : readLine v.line = v.entry := by
  have spaces : ∀ c ∈ List.replicate (2 * v.depth) ' ', (c == ' ') = true := by
    intro c here
    rw [List.eq_of_mem_replicate here]
    rfl
  have label : v.label.dropWhile (· == ' ') = v.label := by
    have whole := List.takeWhile_append_dropWhile (p := (· == ' ')) (l := v.label)
    rwa [v.takeWhile_space_label, List.nil_append] at whole
  rw [readLine, line, List.takeWhile_append_of_pos spaces, List.dropWhile_append_of_pos spaces,
    v.takeWhile_space_label, label, List.append_nil, List.length_replicate,
    Nat.mul_div_cancel_left _ Nat.two_pos]
  rfl

end Visit

/-! ## Trees -/

namespace Node

/-- The entries of the tree below a node. -/
def entries (role : Option Role) (n : Node) : List (Nat × List Char) :=
  (n.visits role).map Visit.entry

/-- The entries of the trees below a list of children. -/
def entriesBelow (children : List (Role × Node)) : List (Nat × List Char) :=
  (visitsBelow children).map Visit.entry

/-- An entry one level deeper. -/
def raise (entry : Nat × List Char) : Nat × List Char := (entry.1 + 1, entry.2)

theorem entries_eq (role : Option Role) (n : Node) :
    n.entries role = (0, Visit.label ⟨0, role, n⟩) :: (entriesBelow n.children).map raise := by
  rw [entries, visits_eq, List.map_cons, List.map_map, entriesBelow, List.map_map]
  rfl

theorem entriesBelow_cons (p : Role × Node) (ps : List (Role × Node)) :
    entriesBelow (p :: ps) = p.2.entries (some p.1) ++ entriesBelow ps := by
  rw [entriesBelow, visitsBelow, List.flatMap_cons, List.map_append]
  rfl

/-- A list of trees does not begin below its first tree. -/
theorem takeWhile_entriesBelow (ps : List (Role × Node)) :
    (entriesBelow ps).takeWhile (fun entry => decide (0 < entry.1)) = [] := by
  cases ps with
  | nil => rfl
  | cons p ps =>
    rw [entriesBelow_cons, entries_eq, List.cons_append, List.takeWhile_cons]
    rfl

/-- The entries of a tree end where the depth returns to that of its first entry. -/
theorem entries_append_inj {n m : Node} {role role' : Option Role} {ps qs : List (Role × Node)}
    (same : n.entries role ++ entriesBelow ps = m.entries role' ++ entriesBelow qs) :
    n.entries role = m.entries role' ∧ entriesBelow ps = entriesBelow qs := by
  have deep : ∀ (children : List (Role × Node)), ∀ entry ∈ (entriesBelow children).map raise,
      decide (0 < entry.1) = true := by
    intro children entry here
    obtain ⟨e, -, rfl⟩ := List.mem_map.mp here
    exact decide_eq_true (Nat.succ_pos e.1)
  rw [entries_eq, entries_eq, List.cons_append, List.cons_append] at same
  obtain ⟨first, others⟩ := List.cons.inj same
  obtain ⟨inner, rest⟩ := append_inj_of_all (deep _) (takeWhile_entriesBelow ps) (deep _)
    (takeWhile_entriesBelow qs) others
  rw [entries_eq, entries_eq, first, inner]
  exact ⟨rfl, rest⟩

/-- The node is told by its entries, among the nodes of its family. -/
def ToldByEntries (n : Node) : Prop :=
  ∀ (m : Node) (role role' : Option Role), n.family = m.family → role.isSome = role'.isSome →
    n.entries role = m.entries role' → role = role' ∧ n = m

/-- Children are told by their entries, if each is and the families are known. -/
theorem entriesBelow_inj {ps qs : List (Role × Node)} (each : ∀ p ∈ ps, p.2.ToldByEntries)
    (families : ∀ q ∈ ps.zip qs, q.1.2.family = q.2.2.family)
    (same : entriesBelow ps = entriesBelow qs) : ps = qs := by
  induction ps generalizing qs with
  | nil =>
    cases qs with
    | nil => rfl
    | cons q qs =>
      rw [entriesBelow_cons, entries_eq] at same
      cases same
  | cons p ps ih =>
    cases qs with
    | nil =>
      rw [entriesBelow_cons, entries_eq] at same
      cases same
    | cons q qs =>
      obtain ⟨told, others⟩ := List.forall_mem_cons.mp each
      rw [List.zip_cons_cons] at families
      obtain ⟨family, families⟩ := List.forall_mem_cons.mp families
      rw [entriesBelow_cons, entriesBelow_cons] at same
      obtain ⟨first, rest⟩ := entries_append_inj same
      obtain ⟨roles, nodes⟩ := told q.2 (some p.1) (some q.1) family rfl first
      rw [ih others families rest, Prod.ext (Option.some.inj roles) nodes]

theorem toldByEntries (n : Node) : n.ToldByEntries := by
  induction n using childInduction with
  | step n ih =>
    intro m role role' family both same
    rw [entries_eq, entries_eq] at same
    obtain ⟨first, others⟩ := List.cons.inj same
    obtain ⟨roles, summaries⟩ := Visit.eq_of_label_eq both (Prod.mk.inj first).2
    obtain ⟨kinds, attributes⟩ := kind_eq_of_summary_eq summaries
    have head := sameHead_of_kind family kinds attributes
    have below : entriesBelow n.children = entriesBelow m.children := by
      refine (List.map_inj_right ?_).mp others
      rintro ⟨d, label⟩ ⟨d', label'⟩ equal
      cases equal
      rfl
    exact ⟨roles, head.eq (entriesBelow_inj ih head.family_children below)⟩

/-- Nodes of one family with the same outline are equal. -/
theorem eq_of_outline_eq {n m : Node} (family : n.family = m.family)
    (plain : ∀ name ∈ n.names, '\n' ∉ name.toList) (plain' : ∀ name ∈ m.names, '\n' ∉ name.toList)
    (same : n.outline = m.outline) : n = m := by
  have single : ∀ {n : Node}, (∀ name ∈ n.names, '\n' ∉ name.toList) →
      ∀ line ∈ (n.visits none).map Visit.line, '\n' ∉ line := by
    intro n plain line here
    obtain ⟨v, there, rfl⟩ := List.mem_map.mp here
    exact (v.line_full (forall_names_of_mem_visits none plain v there)).2
  have text := congrArg String.toList same
  rw [outline_eq, outline_eq, outlineUnder_eq_lines none plain,
    outlineUnder_eq_lines none plain'] at text
  have read := congrArg (List.map Visit.readLine) (lines_inj (single plain) (single plain') text)
  rw [List.map_map, List.map_map] at read
  have entries : n.entries none = m.entries none :=
    calc (n.visits none).map Visit.entry
      _ = (n.visits none).map (Visit.readLine ∘ Visit.line) :=
        List.map_congr_left fun v _ => v.readLine_line.symm
      _ = (m.visits none).map (Visit.readLine ∘ Visit.line) := read
      _ = (m.visits none).map Visit.entry := List.map_congr_left fun v _ => v.readLine_line
  exact (n.toldByEntries m none none family rfl entries).2

end Node

/-! ## Outlines -/

/-- Expressions, and statements, with the same outline are equal.  Only line breaks
are kept out of the names. -/
theorem outline_eq_outline_iff :
    (∀ a b : Stmt, (∀ name ∈ a.names ++ b.names, '\n' ∉ name.toList) →
      ((Node.stmt a).outline = (Node.stmt b).outline ↔ a = b)) ∧
    ∀ e f : Expr, (∀ name ∈ e.names ++ f.names, '\n' ∉ name.toList) →
      ((Node.expr e).outline = (Node.expr f).outline ↔ e = f) := by
  constructor
  · intro a b plain
    obtain ⟨plainA, plainB⟩ := List.forall_mem_append.mp plain
    constructor
    · intro same
      exact Node.stmt.inj (Node.eq_of_outline_eq rfl plainA plainB same)
    · rintro rfl
      rfl
  · intro e f plain
    obtain ⟨plainE, plainF⟩ := List.forall_mem_append.mp plain
    constructor
    · intro same
      exact Node.expr.inj (Node.eq_of_outline_eq rfl plainE plainF same)
    · rintro rfl
      rfl

/-- A name that looks like a line of an outline. -/
def misleadingName : Variable := ⟨"x)\t  rhs: VariableNode(name=y"⟩

theorem outline_eq_outline_iff_misleadingName :
    (Node.stmt (.block [.assign misleadingName (.var ⟨"y"⟩)])).outline ≠
        (Node.stmt (.block [.assign misleadingName (.var ⟨"y"⟩), .block []])).outline ∧
      (Node.expr (.binary .addition (.var misleadingName) (.var ⟨""⟩))).outline ≠
        (Node.expr (.binary .addition (.var ⟨"x"⟩) (.var misleadingName))).outline := by
  obtain ⟨stmts, exprs⟩ := outline_eq_outline_iff
  constructor
  · intro same
    rw [stmts _ _ (by simp [Stmt.names, Stmt.namesList, Expr.names, misleadingName])] at same
    exact absurd same (by decide)
  · intro same
    rw [exprs _ _ (by simp [Expr.names, misleadingName])] at same
    exact absurd same (by decide)

end Abacus
