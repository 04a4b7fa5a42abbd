import Abacus.Proofs.Tree.Head
import Abacus.Proofs.Tree.Places

/-!
# A walk shows the whole tree

A walk visits the nodes at all paths that stay in the tree, in lexicographic order
(`Node.map_snd_places` and the lemmas around it).

The *face* of a node is what it shows without its children: its kind, its attributes and
the roles of its children.  The faces on a walk have no brackets and no depths.  They are
read as prefix notation.  The roles of a face tell how many trees follow it, and its kind
tells their families.  So where the faces of a tree end is told by the faces themselves,
also if others follow (`Node.ToldByFaces`), and trees of one family with the same faces are
equal.
-/

namespace Abacus

/-- What a node shows of itself on a walk. -/
structure Face where
  /-- The name of its kind. -/
  kind : String
  /-- What it carries besides its children. -/
  attributes : String
  /-- The roles of its children, first to last. -/
  roles : List Role
  deriving DecidableEq

namespace Node

/-! ## Roles -/

/-- The roles of the children of a node, first to last. -/
def roles (n : Node) : List Role := n.children.map Prod.fst

theorem roles_block (ss : List Stmt) :
    (Node.stmt (.block ss)).roles = (List.range' 0 ss.length).map Role.statement := by
  rw [← List.zipIdx_map_snd 0 ss, roles, children, List.map_map, List.map_map]
  rfl

/-- No two children of a node have the same role. -/
theorem nodup_roles (n : Node) : n.roles.Nodup := by
  match n with
  | .expr (.const _) => exact .nil
  | .expr (.var _) => exact .nil
  | .expr (.binary _ l r) => simp [roles, children]
  | .stmt (.assign x e) => simp [roles, children]
  | .stmt (.block ss) =>
    have indices : (List.range' 0 ss.length).Nodup := List.nodup_range'
    rw [roles_block]
    exact List.pairwise_map.mpr (indices.imp fun other same => other (Role.statement.inj same))
  | .stmt (.conditional _ l r t none) => simp [roles, children]
  | .stmt (.conditional _ l r t (some f)) => simp [roles, children]
  | .var _ => exact .nil

/-! ## Faces -/

/-- What a node shows of itself. -/
def face (n : Node) : Face := ⟨n.kind, n.attributes, n.roles⟩

/-- The faces on the walk of a node. -/
def faces (n : Node) : List Face := n.walk.map face

/-- The faces on the walks of children, one after the other. -/
def facesBelow (children : List (Role × Node)) : List Face := children.flatMap fun p => p.2.faces

theorem faces_eq (n : Node) : n.faces = n.face :: facesBelow n.children := by
  rw [faces, walk_eq, List.map_cons, List.map_flatMap, below, List.flatMap_map]
  rfl

theorem facesBelow_cons (p : Role × Node) (ps : List (Role × Node)) :
    facesBelow (p :: ps) = p.2.faces ++ facesBelow ps := rfl

/-- The node and the end of its walk are told by the faces, among the nodes of its family. -/
def ToldByFaces (n : Node) : Prop :=
  ∀ (m : Node) (rest rest' : List Face), n.family = m.family →
    n.faces ++ rest = m.faces ++ rest' → n = m ∧ rest = rest'

/-- Children are told by their faces, if each is and the roles and families are known. -/
theorem facesBelow_inj {ps qs : List (Role × Node)} {rest rest' : List Face}
    (each : ∀ p ∈ ps, p.2.ToldByFaces) (roles : ps.map Prod.fst = qs.map Prod.fst)
    (families : ∀ q ∈ ps.zip qs, q.1.2.family = q.2.2.family)
    (same : facesBelow ps ++ rest = facesBelow qs ++ rest') : ps = qs ∧ rest = rest' := by
  induction ps generalizing qs with
  | nil =>
    cases qs with
    | nil => exact ⟨rfl, same⟩
    | cons q qs => cases roles
  | cons p ps ih =>
    cases qs with
    | nil => cases roles
    | cons q qs =>
      obtain ⟨told, others⟩ := List.forall_mem_cons.mp each
      obtain ⟨role, roles⟩ := List.cons.inj roles
      rw [List.zip_cons_cons] at families
      obtain ⟨family, families⟩ := List.forall_mem_cons.mp families
      rw [facesBelow_cons, facesBelow_cons, List.append_assoc, List.append_assoc] at same
      obtain ⟨node, behind⟩ := told q.2 _ _ family same
      obtain ⟨equal, rests⟩ := ih others roles families behind
      rw [equal, Prod.ext role node]
      exact ⟨rfl, rests⟩

theorem toldByFaces (n : Node) : n.ToldByFaces := by
  induction n using childInduction with
  | step n ih =>
    intro m rest rest' family same
    rw [faces_eq, faces_eq, List.cons_append, List.cons_append] at same
    obtain ⟨first, others⟩ := List.cons.inj same
    obtain ⟨kinds, attributes, roles⟩ := Face.mk.inj first
    have head := sameHead_of_kind family kinds attributes
    obtain ⟨children, rests⟩ := facesBelow_inj ih roles head.family_children others
    exact ⟨head.eq children, rests⟩

/-- Nodes of one family with the same faces are equal. -/
theorem eq_of_faces_eq {n m : Node} (family : n.family = m.family) (same : n.faces = m.faces) :
    n = m :=
  (n.toldByFaces m [] [] family (congrArg (· ++ []) same)).1

end Node

/-! ## Walks -/

/-- A walk visits the nodes at all paths that stay in the tree, in lexicographic order, a
path before its extensions and each path once.  The children of every node that it visits
have different roles.  Among the nodes of its family, a node is told by the kinds, the
attributes and the roles of the children on its walk. -/
theorem walk_enumerates_paths (n : Node) :
    (∃ paths : List (List Nat),
      (∀ path, path ∈ paths ↔ (n.at? path).isSome) ∧
      paths.Pairwise (List.Lex (· < ·)) ∧ paths.Nodup ∧
      n.walk.map some = paths.map n.at?) ∧
    (∀ m ∈ n.walk, m.roles.Nodup) ∧
    ∀ m : Node, n.family = m.family → (n.walk.map Node.face = m.walk.map Node.face ↔ n = m) := by
  refine ⟨⟨n.places.map Prod.fst, ?_, ?_, n.nodup_paths, ?_⟩, fun m _ => m.nodup_roles, ?_⟩
  · intro path
    rw [List.mem_map, Option.isSome_iff_exists]
    constructor
    · rintro ⟨⟨path, m⟩, here, rfl⟩
      exact ⟨m, Node.mem_places_iff.mp here⟩
    · rintro ⟨m, there⟩
      exact ⟨(path, m), Node.mem_places_iff.mpr there, rfl⟩
  · exact List.pairwise_map.mpr n.ordered_places
  · rw [← n.map_snd_places, List.map_map, List.map_map]
    exact List.map_congr_left fun p here => (Node.mem_places_iff.mp here).symm
  · intro m family
    constructor
    · exact Node.eq_of_faces_eq family
    · rintro rfl
      rfl

/-- Two blocks beside each other, and one inside the other.  The kinds and attributes on
the walks are the same, and only the roles tell the trees apart. -/
theorem walk_enumerates_paths_threeBlocks :
    let beside : Node := .stmt (.block [.block [], .block []])
    let inside : Node := .stmt (.block [.block [.block []]])
    beside.family = inside.family ∧
    beside.walk.map Node.summary = inside.walk.map Node.summary ∧
    beside.walk.map Node.face ≠ inside.walk.map Node.face ∧
    (inside ∈ inside.walk ∧ inside.roles.Nodup) ∧
    ∃ paths : List (List Nat), paths.Pairwise (List.Lex (· < ·)) ∧
      inside.walk.map some = paths.map inside.at? ∧
      [0, 0] ∈ paths ∧ [1] ∉ paths := by
  intro beside inside
  have alike : beside.walk.map Node.summary = inside.walk.map Node.summary := by
    simp [beside, inside, Node.walk_eq, Node.below, Node.children, Node.summary, Node.kind,
      Node.attributes]
  have root : inside ∈ inside.walk := by
    rw [Node.walk_eq]
    exact List.mem_cons_self
  obtain ⟨-, -, told⟩ := walk_enumerates_paths beside
  obtain ⟨⟨paths, valid, ordered, -, visits⟩, distinct, -⟩ := walk_enumerates_paths inside
  refine ⟨rfl, alike, fun same => ?_, ⟨root, distinct inside root⟩, paths, ordered, visits,
    (valid _).mpr rfl, fun here => ?_⟩
  · exact absurd ((told inside rfl).mp same) (by decide)
  · cases (valid _).mp here

end Abacus
