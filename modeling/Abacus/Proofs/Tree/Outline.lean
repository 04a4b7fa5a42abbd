import Abacus.Proofs.Layout.Lines
import Abacus.Proofs.Tree.Head
import Abacus.Proofs.Tree.Places
import Abacus.Tree.Outline

/-!
# The lines of an outline

The outline of a node is its own line and then the outlines of its children,
expanded by one layer (`Node.outlineUnder_eq`).  This is read off the script,
which streams it.

Layers are only one way to say where a line begins.  The other is by depth.  The
*visits* of a node are the places of its tree in the order of the walk, each
with its depth and its role (`Node.visits`).  If no name has a line break, the
outline has one line for each visit: two spaces for each level of depth, the
role, and the summary of the node (`Node.outlineUnder_eq_lines`).  The visits are
the places of the tree, where the depth is the length of the path
(`Node.visits_eq_places`).
-/

namespace Abacus

namespace Node

/-! ## Names -/

/-- The names in the tree below a node. -/
def names : Node → List String
  | .expr e => e.names
  | .stmt s => s.names
  | .var v => [v.name]

/-- What holds of all names below a node holds of those below its children. -/
theorem forall_names_of_mem_children {p : String → Prop} {n : Node}
    (all : ∀ name ∈ n.names, p name) {c : Role × Node} (here : c ∈ n.children) :
    ∀ name ∈ c.2.names, p name := by
  match n with
  | .expr (.const _) => cases here
  | .expr (.var _) => cases here
  | .expr (.binary op l r) =>
    obtain ⟨left, right⟩ := (@Expr.forall_names_binary p op l r).mp all
    rcases List.mem_pair.mp here with rfl | rfl
    · exact left
    · exact right
  | .stmt (.assign x e) =>
    obtain ⟨target, value⟩ := Stmt.forall_names_assign.mp all
    rcases List.mem_pair.mp here with rfl | rfl
    · exact List.forall_mem_singleton.mpr target
    · exact value
  | .stmt (.block ss) =>
    have each := Stmt.forall_names_block.mp all
    obtain ⟨⟨s, i⟩, there, rfl⟩ := List.mem_map.mp here
    exact each s (List.fst_mem_of_mem_zipIdx there)
  | .stmt (.conditional op l r t f) =>
    obtain ⟨left, right, ifTrue, ifFalse⟩ := (@Stmt.forall_names_conditional p op l r t f).mp all
    rcases List.mem_append.mp here with here | here
    · rcases List.mem_cons.mp here with rfl | here
      · exact left
      · rcases List.mem_pair.mp here with rfl | rfl
        · exact right
        · exact ifTrue
    · obtain ⟨s, there, rfl⟩ := Option.map_eq_some_iff.mp (Option.mem_toList.mp here)
      exact ifFalse s there
  | .var _ => cases here

/-! ## The recursive reading -/

/-- The outline of a node, below its parent if it has a role. -/
def outlineUnder (role : Option Role) (n : Node) : String := (OutlineTask.node role n).script.text

theorem outline_eq (n : Node) : n.outline = n.outlineUnder none := rfl

theorem streams_node (role : Option Role) (n : Node) (chars : Role × Node → List Char)
    (each : ∀ p ∈ n.children, (OutlineTask.node (some p.1) p.2).script.Streams (chars p)) :
    (OutlineTask.node role n).script.Streams
      ((OutlineTask.lead role ++ n.summary ++ "\n").toList ++
        Layer.expandWith "  ".toList true (n.children.flatMap chars)) := by
  have below := Script.streams_flatMap n.children
    (fun p => (OutlineTask.node (some p.1) p.2).script) chars each
  have whole := (Script.streams_write (OutlineTask.lead role ++ n.summary ++ "\n")).append
    (below.indent "  ")
  rw [OutlineTask.script_node, OutlineTask.ofChildren, List.flatMap_map]
  exact whole

/-- The script of a node streams its outline. -/
theorem streams_outlineUnder (role : Option Role) (n : Node) :
    (OutlineTask.node role n).script.Streams (n.outlineUnder role).toList := by
  induction n using childInduction generalizing role with
  | step n ih =>
    have streams := streams_node role n (fun p => (p.2.outlineUnder (some p.1)).toList)
      fun p here => ih p here (some p.1)
    rw [outlineUnder, streams.toList_text]
    exact streams

/-- The outline of a node: its line, and the outlines of its children further in. -/
theorem outlineUnder_eq (role : Option Role) (n : Node) :
    (n.outlineUnder role).toList =
      (OutlineTask.lead role ++ n.summary ++ "\n").toList ++
        Layer.expandWith "  ".toList true
          (n.children.flatMap fun p => (p.2.outlineUnder (some p.1)).toList) :=
  (streams_node role n _ fun p _ => p.2.streams_outlineUnder (some p.1)).toList_text

end Node

/-! ## Visits -/

/-- A place met on a walk. -/
structure Visit where
  /-- The number of levels below the start of the walk. -/
  depth : Nat
  /-- The role below the parent. -/
  role : Option Role
  /-- The node. -/
  node : Node

namespace Visit

/-- The same place, seen from the parent of the start. -/
def deeper (v : Visit) : Visit := { v with depth := v.depth + 1 }

/-- What an outline tells about a place. -/
def label (v : Visit) : List Char := (OutlineTask.lead v.role ++ v.node.summary).toList

/-- The line of a place in an outline. -/
def line (v : Visit) : List Char := List.replicate (2 * v.depth) ' ' ++ v.label

theorem line_deeper (v : Visit) : v.deeper.line = "  ".toList ++ v.line := by
  have margin : List.replicate (2 * (v.depth + 1)) ' ' =
      "  ".toList ++ List.replicate (2 * v.depth) ' ' := List.replicate_succ
  rw [line, line, ← List.append_assoc, ← margin]
  rfl

end Visit

namespace Node

/-- The places of the tree below a node, in the order of the walk. -/
def visits (role : Option Role) (n : Node) : List Visit :=
  ⟨0, role, n⟩ :: (n.children.attach.flatMap fun p => p.1.2.visits (some p.1.1)).map Visit.deeper
termination_by n.size
decreasing_by exact size_lt_of_mem_children p.2

/-- The places below a list of children. -/
def visitsBelow (children : List (Role × Node)) : List Visit :=
  children.flatMap fun p => p.2.visits (some p.1)

/-- The places below a node are the node itself and, one level deeper, those below its children. -/
theorem visits_eq (role : Option Role) (n : Node) :
    n.visits role = ⟨0, role, n⟩ :: (visitsBelow n.children).map Visit.deeper := by
  have plain : (n.children.attach.flatMap fun p => p.1.2.visits (some p.1.1)) =
      visitsBelow n.children := by
    rw [visitsBelow, ← List.attach_map_subtype_val n.children, List.flatMap_map,
      List.attach_map_subtype_val]
  rw [visits, plain]

theorem forall_names_of_mem_visits {p : String → Prop} (role : Option Role) {n : Node}
    (all : ∀ name ∈ n.names, p name) :
    ∀ v ∈ n.visits role, ∀ name ∈ v.node.names, p name := by
  induction n using childInduction generalizing role with
  | step n ih =>
    intro v here
    rw [visits_eq] at here
    rcases List.mem_cons.mp here with rfl | here
    · exact all
    · obtain ⟨w, there, rfl⟩ := List.mem_map.mp here
      obtain ⟨c, child, within⟩ := List.mem_flatMap.mp there
      exact ih c child (some c.1) (forall_names_of_mem_children all child) w within

/-! ## Lines -/

/-- Attributes stay on one line if the names do. -/
theorem newline_notMem_attributes {n : Node} (plain : ∀ name ∈ n.names, '\n' ∉ name.toList) :
    '\n' ∉ n.attributes.toList := by
  have enclosed : ∀ key value : String, '\n' ∉ key.toList → '\n' ∉ value.toList →
      '\n' ∉ (key ++ value ++ ")").toList := by
    intro key value hkey hvalue
    rw [String.toList_append, String.toList_append, List.mem_append, List.mem_append, not_or,
      not_or]
    exact ⟨⟨hkey, hvalue⟩, by decide⟩
  match n with
  | .expr (.const c) =>
    apply enclosed _ _ (by decide)
    exact c.value.notMem_text rfl (by decide) (by decide) (by decide)
  | .expr (.var v) => exact enclosed _ _ (by decide) (plain v.name (List.mem_singleton.mpr rfl))
  | .expr (.binary op l r) =>
    apply enclosed _ _ (by decide)
    cases op <;> decide
  | .stmt (.assign x e) => exact List.not_mem_nil
  | .stmt (.block ss) => exact List.not_mem_nil
  | .stmt (.conditional op l r t f) =>
    apply enclosed _ _ (by decide)
    cases op <;> decide
  | .var v => exact enclosed _ _ (by decide) (plain v.name (List.mem_singleton.mpr rfl))

end Node

theorem Role.toList_name_statement (index : Nat) :
    (Role.statement index).name.toList = Nat.toDigits 10 index := by
  rw [Role.name, Nat.toString_eq_repr, Nat.toList_repr]

theorem Role.isAlphanum_of_mem_name {role : Role} {c : Char} (here : c ∈ role.name.toList) :
    c.isAlphanum = true := by
  have words : ∀ name : String, name.toList.all Char.isAlphanum = true →
      c ∈ name.toList → c.isAlphanum = true := fun name all => List.all_eq_true.mp all c
  cases role with
  | statement index =>
    rw [Role.toList_name_statement] at here
    rw [Char.isAlphanum, Nat.isDigit_of_mem_toDigits (by decide) (by decide) here, Bool.or_true]
  | _ => exact words _ rfl here

theorem newline_notMem_lead (role : Option Role) : '\n' ∉ (OutlineTask.lead role).toList := by
  cases role with
  | none => exact List.not_mem_nil
  | some role =>
    rw [OutlineTask.lead, String.toList_append, List.mem_append]
    rintro (here | here)
    · cases Role.isAlphanum_of_mem_name here
    · simp at here

namespace Visit

/-- A line of an outline is not blank, and it is a single line if the names are. -/
theorem line_full {v : Visit} (plain : ∀ name ∈ v.node.names, '\n' ∉ name.toList) :
    v.line ≠ [] ∧ '\n' ∉ v.line := by
  constructor
  · apply List.append_ne_nil_of_right_ne_nil
    rw [label, Node.summary, String.toList_append, String.toList_append]
    apply List.append_ne_nil_of_right_ne_nil
    exact List.append_ne_nil_of_left_ne_nil v.node.kind_ne_nil _
  · rw [line, label, Node.summary, String.toList_append, String.toList_append, List.mem_append,
      List.mem_append, List.mem_append]
    rintro (here | here | here | here)
    · cases List.eq_of_mem_replicate here
    · exact newline_notMem_lead v.role here
    · cases Node.isAlpha_of_mem_kind here
    · exact Node.newline_notMem_attributes plain here

end Visit

/-- An outline has one line for each place. -/
theorem Node.outlineUnder_eq_lines (role : Option Role) {n : Node}
    (plain : ∀ name ∈ n.names, '\n' ∉ name.toList) :
    (n.outlineUnder role).toList =
      ((n.visits role).map Visit.line).flatMap fun line => line ++ ['\n'] := by
  induction n using childInduction generalizing role with
  | step n ih =>
    have below : (n.children.flatMap fun p => (p.2.outlineUnder (some p.1)).toList) =
        ((visitsBelow n.children).map Visit.line).flatMap fun line => line ++ ['\n'] := by
      rw [visitsBelow, List.map_flatMap, List.flatMap_assoc]
      exact List.flatMap_congr fun p here =>
        ih p here (some p.1) (forall_names_of_mem_children plain here)
    have full : ∀ line ∈ (visitsBelow n.children).map Visit.line, line ≠ [] ∧ '\n' ∉ line := by
      intro line here
      obtain ⟨v, there, rfl⟩ := List.mem_map.mp here
      obtain ⟨c, child, within⟩ := List.mem_flatMap.mp there
      exact v.line_full
        (forall_names_of_mem_visits (some c.1) (forall_names_of_mem_children plain child) v within)
    rw [outlineUnder_eq, below, Layer.expandWith_lines _ _ full, visits_eq, List.map_cons,
      List.flatMap_cons, List.map_map, List.flatMap_map, List.flatMap_map, String.toList_append]
    simp only [Function.comp_apply, Visit.line_deeper]
    rfl

/-! ## Line by line -/

namespace Node

/-- The role of the node at the end of a path, where the root has the given role. -/
def roleAt (role : Option Role) : Node → List Nat → Option Role
  | _, [] => role
  | n, i :: path =>
    match n.children[i]? with
    | some (below, child) => child.roleAt (some below) path
    | none => none

/-- What is met at a place. -/
def visitAt (role : Option Role) (n : Node) (p : List Nat × Node) : Visit :=
  ⟨p.1.length, n.roleAt role p.1, p.2⟩

/-- A place below a child is met one level deeper, in the role that it has there. -/
theorem visitAt_atChild (role : Option Role) {n : Node} {i : Nat} {c : Role × Node}
    (here : n.children[i]? = some c) (p : List Nat × Node) :
    n.visitAt role (atChild i p) = (c.2.visitAt (some c.1) p).deeper := by
  have below : n.roleAt role (i :: p.1) = c.2.roleAt (some c.1) p.1 := by
    rw [roleAt, here]
  rw [visitAt, atChild, below]
  rfl

/-- The visits of a node are its places. -/
theorem visits_eq_places (role : Option Role) (n : Node) :
    n.visits role = n.places.map (n.visitAt role) := by
  induction n using childInduction generalizing role with
  | step n ih =>
    have counted : visitsBelow n.children =
        n.children.zipIdx.flatMap fun c => c.1.2.visits (some c.1.1) := by
      rw [visitsBelow, ← List.zipIdx_map_fst 0 n.children, List.flatMap_map, List.zipIdx_map_fst]
    have indexed : placesFrom 0 n.below =
        n.children.zipIdx.flatMap fun c => c.1.2.places.map (atChild c.2) := by
      rw [placesFrom, below, List.zipIdx_map, List.flatMap_map]
      rfl
    rw [visits_eq, places_eq, List.map_cons, counted, indexed, List.map_flatMap, List.map_flatMap]
    refine congrArg (List.cons (Visit.mk 0 role n)) (List.flatMap_congr fun c there => ?_)
    rw [ih c.1 (List.fst_mem_of_mem_zipIdx there), List.map_map, List.map_map]
    exact List.map_congr_left fun p _ =>
      (visitAt_atChild role (List.mem_zipIdx_iff_getElem?.mp there) p).symm

end Node

/-- The parts of a line. -/
theorem Visit.ofList_line (v : Visit) :
    String.ofList v.line = String.ofList (List.replicate (2 * v.depth) ' ') ++
      (v.role.elim "" (·.name ++ ": ") ++ v.node.kind ++ v.node.attributes) := by
  have lead : OutlineTask.lead v.role = v.role.elim "" (·.name ++ ": ") := by
    cases v.role <;> rfl
  rw [line, label, String.ofList_append, String.ofList_toList, Node.summary, lead,
    String.append_assoc]

/-- If no name has a line break, an outline has one line for each node that a walk visits.
The line of a node has two spaces for each level of its depth, which is the length of its
path, then its role and a colon if it is not the root, and then its kind and attributes. -/
theorem outline_line_by_line (n : Node) (plain : ∀ name ∈ n.names, '\n' ∉ name.toList) :
    ∃ lines : List String,
      n.outline = String.join (lines.map (· ++ "\n")) ∧
      (∀ line ∈ lines, '\n' ∉ line.toList) ∧
      lines.length = n.walk.length ∧
      ∀ (i : Nat) (m : Node), n.walk[i]? = some m → ∃ path,
        n.places[i]? = some (path, m) ∧ n.at? path = some m ∧
        lines[i]? = some (String.ofList (List.replicate (2 * path.length) ' ') ++
          ((n.roleAt none path).elim "" (·.name ++ ": ") ++ m.kind ++ m.attributes)) := by
  have visited := n.visits_eq_places none
  refine ⟨(n.visits none).map fun v => String.ofList v.line, ?_, ?_, ?_, ?_⟩
  · rw [← String.toList_inj, String.toList_join, Node.outline_eq,
      Node.outlineUnder_eq_lines none plain, List.map_map, List.flatMap_map, List.flatMap_map]
    refine List.flatMap_congr fun v _ => ?_
    rw [Function.comp_apply, String.toList_append, String.toList_ofList]
    rfl
  · intro line here
    obtain ⟨v, there, rfl⟩ := List.mem_map.mp here
    rw [String.toList_ofList]
    exact (v.line_full (Node.forall_names_of_mem_visits none plain v there)).2
  · rw [visited, List.length_map, List.length_map, ← n.map_snd_places, List.length_map]
  · intro i m here
    rw [← n.map_snd_places, List.getElem?_map] at here
    obtain ⟨⟨path, m⟩, place, rfl⟩ := Option.map_eq_some_iff.mp here
    refine ⟨path, place, Node.mem_places_iff.mp (List.mem_of_getElem? place), ?_⟩
    rw [visited, List.getElem?_map, List.getElem?_map, place]
    exact congrArg some (Visit.ofList_line (n.visitAt none (path, m)))

/-- A name that looks like a line of its own, and a branch of the second statement. -/
theorem outline_line_by_line_nested :
    let n : Node := .stmt (.block [.assign ⟨"x"⟩ (.var ⟨"y)\r  1: BlockNode"⟩),
      .conditional .lessThan (.var ⟨"x"⟩) (.var ⟨"y"⟩) (.block []) none])
    (∀ name ∈ n.names, '\n' ∉ name.toList) ∧
    ∃ lines : List String, n.outline = String.join (lines.map (· ++ "\n")) ∧ lines.length = 8 ∧
      lines[3]? = some "    rhs: VariableNode(name=y)\r  1: BlockNode)" ∧
      lines[7]? = some "    ifTrue: BlockNode" := by
  intro n
  have plain : ∀ name ∈ n.names, '\n' ∉ name.toList := by
    simp [n, Node.names, Stmt.names, Stmt.namesList, Stmt.namesOption, Expr.names]
  have walk : n.walk.length = 8 := by
    simp [n, Node.walk_eq, Node.below, Node.children]
  have value : n.places[3]? = some ([0, 1], .expr (.var ⟨"y)\r  1: BlockNode"⟩)) := by
    simp [n, Node.places_eq, Node.placesFrom_cons, Node.placesFrom_nil,
      Node.below, Node.children, Node.atChild]
  have branch : n.places[7]? = some ([1, 2], .stmt (.block [])) := by
    simp [n, Node.places_eq, Node.placesFrom_cons, Node.placesFrom_nil,
      Node.below, Node.children, Node.atChild]
  obtain ⟨lines, whole, -, count, each⟩ := outline_line_by_line n plain
  have line : ∀ (i : Nat) (path : List Nat) (m : Node), n.places[i]? = some (path, m) →
      lines[i]? = some (String.ofList (List.replicate (2 * path.length) ' ') ++
        ((n.roleAt none path).elim "" (·.name ++ ": ") ++ m.kind ++ m.attributes)) := by
    intro i path m place
    have visited : n.walk[i]? = some m := by
      rw [← n.map_snd_places, List.getElem?_map, place]
      rfl
    obtain ⟨found, same, -, line⟩ := each i m visited
    cases place.symm.trans same
    exact line
  refine ⟨plain, lines, whole, count.trans walk, ?_, ?_⟩
  · rw [line 3 _ _ value]
    rfl
  · rw [line 7 _ _ branch]
    rfl

end Abacus
