import Abacus.Proofs.Code.Meaning

/-!
# Code is unambiguous

Statements with the same code differ at most in their absent else parts, which
are written as empty blocks.  `Stmt.completed` fills them in, at every depth, and
leaves the code as it is (`Stmt.code_completed`).  Expressions with the same code
are equal.

Equal texts are read as equal trees, so it is left to see that a tree can be
told from what its code is read as.  For a constant this is its value: the same
tree cannot have two.
-/

namespace Abacus

/-! ## Absent else parts -/

mutual

/-- The statement with an empty block for each absent else part. -/
def Stmt.completed : Stmt → Stmt
  | .assign x e => .assign x e
  | .block ss => .block (Stmt.completedList ss)
  | .conditional op l r t f => .conditional op l r t.completed (some (Stmt.completedElse f))

/-- The statements with an empty block for each absent else part. -/
def Stmt.completedList : List Stmt → List Stmt
  | [] => []
  | s :: ss => s.completed :: Stmt.completedList ss

/-- The else part, or an empty block in its place. -/
def Stmt.completedElse : Option Stmt → Stmt
  | none => .block []
  | some s => s.completed

end

namespace Stmt

theorem bodyChars_completedList (style : CodeStyle) (ss : List Stmt)
    (same : ∀ s ∈ ss, s.completed.code style = s.code style) :
    bodyChars style (completedList ss) = bodyChars style ss := by
  induction ss with
  | nil => rfl
  | cons s ss ih =>
    have first := same s (List.mem_cons_self ..)
    have others := ih fun t there => same t (List.mem_cons_of_mem _ there)
    rw [completedList, bodyChars_cons, bodyChars_cons, first, others]

/-- An absent else part is written as an empty block. -/
theorem code_completed (style : CodeStyle) (s : Stmt) :
    s.completed.code style = s.code style := by
  induction s using Stmt.nestedInduction with
  | assign x e => rfl
  | block ss ih =>
    have body := bodyChars_completedList style ss ih
    cases ss with
    | nil => rfl
    | cons s ss =>
      apply String.toList_inj.mp
      rw [completedList] at body
      rw [completed, completedList, code_block_cons, code_block_cons, body]
  | conditional op l r t f iht ihf =>
    have otherwise : elseCode style (some (completedElse f)) = elseCode style f := by
      cases f with
      | none => exact code_block_nil style
      | some f => exact ihf f rfl
    apply String.toList_inj.mp
    rw [completed, code_conditional, code_conditional, iht, otherwise]

end Stmt

/-! ## Trees from what their code is read as -/

/-- A number is not read as a name or an operation. -/
theorem Binary64.parsed_ne (x : Binary64) :
    (∀ n, x.parsed ≠ .name n) ∧ ∀ op l r, x.parsed ≠ .binary op l r := by
  unfold parsed
  split
  · exact ⟨nofun, nofun⟩
  · split
    · exact ⟨nofun, nofun⟩
    · exact ⟨nofun, nofun⟩

theorem Constant.eq_of_parsed_eq (c c' : Constant) (same : c.value.parsed = c'.value.parsed) :
    c = c' := by
  have value := c.value.value_parsed Comparison.holds c.isCanonical Environment.empty
  rw [same, c'.value.value_parsed Comparison.holds c'.isCanonical Environment.empty] at value
  obtain ⟨x, canonical⟩ := c
  obtain ⟨x', canonical'⟩ := c'
  cases value
  rfl

theorem Expr.eq_of_parsed_eq (e f : Expr) (same : e.parsed = f.parsed) : e = f := by
  induction e generalizing f with
  | const c =>
    cases f with
    | const c' => rw [c.eq_of_parsed_eq c' same]
    | var v' => exact absurd same (c.value.parsed_ne.1 _)
    | binary op' l' r' => exact absurd same (c.value.parsed_ne.2 _ _ _)
  | var v =>
    cases f with
    | const c' => exact absurd same.symm (c'.value.parsed_ne.1 _)
    | var v' =>
      obtain ⟨name⟩ := v
      obtain ⟨name'⟩ := v'
      cases same
      rfl
    | binary op' l' r' => cases same
  | binary op l r ihl ihr =>
    cases f with
    | const c' => exact absurd same.symm (c'.value.parsed_ne.2 _ _ _)
    | var v' => cases same
    | binary op' l' r' =>
      injection same with connective left right
      cases connective
      rw [ihl l' left, ihr r' right]

namespace Stmt

theorem completedList_eq_of_parsedList_eq (ss ts : List Stmt)
    (each : ∀ s ∈ ss, ∀ t : Stmt, s.parsed = t.parsed → s.completed = t.completed)
    (same : parsedList ss = parsedList ts) : completedList ss = completedList ts := by
  induction ss generalizing ts with
  | nil =>
    cases ts with
    | nil => rfl
    | cons t ts => cases same
  | cons s ss ih =>
    cases ts with
    | nil => cases same
    | cons t ts =>
      rw [parsedList, parsedList] at same
      injection same with first others
      rw [completedList, completedList, each s (List.mem_cons_self ..) t first,
        ih ts (fun u there => each u (List.mem_cons_of_mem _ there)) others]

theorem eq_of_parsed_eq_nil (s : Stmt) (empty : s.parsed = .block []) : s = .block [] := by
  cases s with
  | assign x e =>
    rw [parsed] at empty
    cases empty
  | block ss =>
    cases ss with
    | nil => rfl
    | cons s ss =>
      rw [parsed, parsedList] at empty
      cases empty
  | conditional op l r t f =>
    rw [parsed] at empty
    cases empty

theorem completedElse_eq_of_parsedElse_eq (f g : Option Stmt)
    (each : ∀ s ∈ f, ∀ t : Stmt, s.parsed = t.parsed → s.completed = t.completed)
    (same : parsedElse f = parsedElse g) : completedElse f = completedElse g := by
  cases f with
  | none =>
    cases g with
    | none => rfl
    | some t =>
      -- an absent part looks like an empty block, and only that
      rw [t.eq_of_parsed_eq_nil same.symm]
      rfl
  | some s =>
    cases g with
    | none =>
      rw [s.eq_of_parsed_eq_nil same]
      rfl
    | some t => exact each s rfl t same

/-- Statements whose code is read as the same tree differ at most in absent else parts. -/
theorem completed_eq_of_parsed_eq (a b : Stmt) (same : a.parsed = b.parsed) :
    a.completed = b.completed := by
  induction a using Stmt.nestedInduction generalizing b with
  | assign x e =>
    cases b with
    | assign y f =>
      rw [parsed, parsed] at same
      injection same with target value
      obtain ⟨name⟩ := x
      obtain ⟨name'⟩ := y
      cases target
      rw [e.eq_of_parsed_eq f value]
    | block ts =>
      rw [parsed, parsed] at same
      cases same
    | conditional op l r t f =>
      rw [parsed, parsed] at same
      cases same
  | block ss ih =>
    cases b with
    | assign y f =>
      rw [parsed, parsed] at same
      cases same
    | block ts =>
      rw [parsed, parsed] at same
      injection same with body
      rw [completed, completed, completedList_eq_of_parsedList_eq ss ts ih body]
    | conditional op l r t f =>
      rw [parsed, parsed] at same
      cases same
  | conditional op l r t f iht ihf =>
    cases b with
    | assign y f =>
      rw [parsed, parsed] at same
      cases same
    | block ts =>
      rw [parsed, parsed] at same
      cases same
    | conditional op' l' r' t' f' =>
      rw [parsed, parsed] at same
      injection same with condition ifTrue ifFalse
      injection condition with connective left right
      injection ifFalse with otherwise
      cases connective
      rw [completed, completed, l.eq_of_parsed_eq l' left, r.eq_of_parsed_eq r' right,
        iht t' ifTrue, completedElse_eq_of_parsedElse_eq f f' ihf otherwise]

end Stmt

/-! ## Texts -/

/-- The same code comes only from the same tree, up to absent else parts.  The
words `if`, `else` and `pow` may be names. -/
theorem code_eq_code_iff (style : CodeStyle)
    (blank : ∀ c ∈ style.indent.toList, c = ' ' ∨ c = '\t') :
    (∀ a b : Stmt,
      (∀ name ∈ a.names ++ b.names,
        isIdentifier name.toList = true ∧ name ∉ ["NAN", "INFINITY"]) →
      (a.code style = b.code style ↔ a.completed = b.completed)) ∧
    ∀ e f : Expr,
      (∀ name ∈ e.names ++ f.names,
        isIdentifier name.toList = true ∧ name ∉ ["NAN", "INFINITY"]) →
      (e.code style = f.code style ↔ e = f) := by
  -- nothing has to be reserved for the text to be read back
  let d : Dialect := ⟨style.equals, []⟩
  have blanks : ∀ c ∈ style.indent.toList, isBlank c = true := by
    intro c here
    rcases blank c here with rfl | rfl
    · rfl
    · rfl
  have valid : ∀ name : String, isIdentifier name.toList = true ∧ name ∉ ["NAN", "INFINITY"] →
      d.isName name.toList = true := fun name => (d.isName_toList name).mpr
  constructor
  · intro a b names
    obtain ⟨namesA, namesB⟩ := List.forall_mem_append.mp names
    constructor
    · intro same
      have readA := d.parse_code style rfl blanks a fun name here => valid name (namesA name here)
      have readB := d.parse_code style rfl blanks b fun name here => valid name (namesB name here)
      rw [same, readB] at readA
      exact a.completed_eq_of_parsed_eq b (Option.some.inj readA).symm
    · intro same
      rw [← a.code_completed, same, b.code_completed]
  · intro e f names
    obtain ⟨namesE, namesF⟩ := List.forall_mem_append.mp names
    constructor
    · intro same
      have readE := d.operand_code style e (fun name here => valid name (namesE name here)) [] nofun
      have readF := d.operand_code style f (fun name here => valid name (namesF name here)) [] nofun
      rw [same] at readE
      exact e.eq_of_parsed_eq f (readE.unique readF)
    · rintro rfl
      rfl

/-- A conditional whose names are words of the language. -/
def wordsAsNames (otherwise : Option Stmt) : Stmt :=
  .conditional .equals (.var ⟨"pow"⟩) (.var ⟨"if"⟩) (.assign ⟨"else"⟩ (.var ⟨"pow"⟩)) otherwise

theorem code_eq_code_iff_wordsAsNames :
    (wordsAsNames none).code ⟨"\t", .legacy⟩ =
        (wordsAsNames (some (.block []))).code ⟨"\t", .legacy⟩ ∧
      (wordsAsNames none).code ⟨"\t", .legacy⟩ ≠
        (wordsAsNames (some (.block [.block []]))).code ⟨"\t", .legacy⟩ ∧
      (Expr.var ⟨"pow"⟩).code ⟨"\t", .legacy⟩ ≠ (Expr.var ⟨"if"⟩).code ⟨"\t", .legacy⟩ := by
  obtain ⟨stmts, exprs⟩ := code_eq_code_iff ⟨"\t", .legacy⟩ (by simp)
  refine ⟨(stmts _ _ (by decide)).mpr rfl, fun same => ?_, fun same => ?_⟩
  · exact absurd ((stmts _ _ (by decide)).mp same) (by decide)
  · exact absurd ((exprs _ _ (by decide)).mp same) (by decide)

end Abacus
