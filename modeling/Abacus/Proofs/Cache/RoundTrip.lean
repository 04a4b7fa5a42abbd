import Abacus.Cache.Load

/-!
# Storing and loading

A stored tree loads as itself, unless it has a constant that JSON has no number
for.  NaN and the infinities are stored as `null`, which loads as no constant, so
one of them anywhere in a tree makes the whole load fail.  Both are one equation:
what a stored form loads as is `intact` (`Expr.load_store`, `Stmt.load_store`).

Many more values load than are ever stored: records as lists, members in any
order or unknown, operators as objects, integers for constants.  Whatever loads is
a tree with finite constants only, since every JSON number is finite
(`loadExpr_yields`, `loadStmt_yields`).  So a tree that was loaded once can be
stored, and loads again as the same tree.
-/

namespace Abacus

/-! ## Constants of a tree -/

/-- The constants in an expression. -/
def Expr.constants : Expr → List Constant
  | .const c => [c]
  | .var _ => []
  | .binary _ l r => l.constants ++ r.constants

mutual

/-- The constants in a statement. -/
def Stmt.constants : Stmt → List Constant
  | .assign _ e => e.constants
  | .block ss => Stmt.constantsList ss
  | .conditional _ l r t f =>
    l.constants ++ (r.constants ++ (t.constants ++ Stmt.constantsOption f))

/-- The constants in a list of statements. -/
def Stmt.constantsList : List Stmt → List Constant
  | [] => []
  | s :: ss => s.constants ++ Stmt.constantsList ss

/-- The constants in an optional statement. -/
def Stmt.constantsOption : Option Stmt → List Constant
  | none => []
  | some s => s.constants

end

/-- Whether all constants of a list are numbers that JSON has. -/
def allFinite (cs : List Constant) : Bool := cs.all fun c => c.value.isFinite

@[simp] theorem allFinite_nil : allFinite [] = true := rfl

@[simp] theorem allFinite_append (cs ds : List Constant) :
    allFinite (cs ++ ds) = (allFinite cs && allFinite ds) := List.all_append

theorem allFinite_eq_true_iff {cs : List Constant} :
    allFinite cs = true ↔ ∀ c ∈ cs, c.value.isFinite = true := List.all_eq_true

theorem allFinite_eq_false_iff {cs : List Constant} :
    allFinite cs = false ↔ ∃ c ∈ cs, c.value.isFinite = false := by
  simp [allFinite]

/-! ## Loading what was stored -/

/-- The error of a constant that was stored as `null`. -/
def lostConstant : LoadError := .wrongType .null "f64"

section

variable {α β : Type} {cs ds : List Constant} {a : α} {b : β}

/-- What the stored form of a tree with the given constants loads as. -/
def intact (cs : List Constant) (a : α) : Except LoadError α :=
  if allFinite cs then .ok a else .error lostConstant

theorem intact_congr (alike : allFinite cs = allFinite ds) : intact cs a = intact ds a := by
  rw [intact, intact, alike]

/-- Parts that were stored load one after the other, and the first lost constant counts. -/
theorem bind_eq_intact {x : Except LoadError α} {next : α → Except LoadError β}
    (first : x = intact cs a) (later : next a = intact ds b) :
    (x >>= next) = intact (cs ++ ds) b := by
  rw [first, intact, intact, allFinite_append]
  cases allFinite cs with
  | false => rfl
  | true => exact later

theorem map_eq_intact {x : Except LoadError α} (first : x = intact cs a) (f : α → β) :
    f <$> x = intact cs (f a) := by
  rw [first, intact, intact]
  cases allFinite cs with
  | false => rfl
  | true => rfl

/-- A field that was stored is present. -/
theorem loadPresent_eq_intact {field : Option Json} {v : Json} {load : Json → Except LoadError α}
    (found : field = some v) (loads : load v = intact cs a) :
    loadPresent field (fun v _ => load v) = intact cs (some a) := by
  subst found
  exact map_eq_intact loads some

end

theorem Json.ofBinary64_of_finite {x : Binary64} (finite : x.isFinite = true) :
    Json.ofBinary64 x = .number (.float x) finite := by
  have found : Json.ofNumber? (.float x) = some (.number (.float x) finite) := dif_pos finite
  rw [Json.ofBinary64, found]
  rfl

theorem Json.ofBinary64_of_not_finite {x : Binary64} (infinite : ¬x.isFinite = true) :
    Json.ofBinary64 x = .null := by
  have absent : Json.ofNumber? (.float x) = none := dif_neg infinite
  rw [Json.ofBinary64, absent]
  rfl

theorem Constant.load_store (c : Constant) : loadConstant c.store = intact [c] c := by
  have one : allFinite [c] = c.value.isFinite := Bool.and_true _
  rw [Constant.store, intact, one]
  split
  next finite =>
    have kept : Constant.ofNumber c.value = c := by
      simp only [Constant.ofNumber, c.isCanonical]
    rw [Json.ofBinary64_of_finite finite]
    exact congrArg Except.ok kept
  next infinite =>
    rw [Json.ofBinary64_of_not_finite infinite]
    rfl

theorem Operator.load_store (op : Operator) : loadOperator op.store = intact [] op := by
  cases op <;> rfl

theorem Comparison.load_store (op : Comparison) : loadComparison op.store = intact [] op := by
  cases op <;> rfl

theorem Variable.load_store (v : Variable) : loadVariable v.store = intact [] v := rfl

/-- What a stored expression loads as. -/
theorem Expr.load_store (e : Expr) : loadExpr e.store = intact e.constants e := by
  induction e with
  | const c =>
    rw [Expr.store, Expr.variant, loadExpr]
    exact map_eq_intact c.load_store Expr.const
  | var v =>
    rw [Expr.store, Expr.variant, loadExpr]
    exact map_eq_intact v.load_store Expr.var
  | binary op l r ihl ihr =>
    have same : allFinite (l.constants ++ ([] ++ (r.constants ++ []))) =
        allFinite (Expr.binary op l r).constants := by
      simp [Expr.constants]
    rw [Expr.store, Expr.variant, loadExpr, Expr.storeContent, loadBinary, ← intact_congr same]
    apply bind_eq_intact (loadPresent_eq_intact rfl ihl)
    apply bind_eq_intact (loadPresent_eq_intact rfl op.load_store)
    apply bind_eq_intact (loadPresent_eq_intact rfl ihr)
    rfl

/-- What stored statements load as, if each loads so. -/
theorem Stmt.loadEach_storeList (ss : List Stmt)
    (each : ∀ s ∈ ss, loadStmt s.store = intact s.constants s) :
    loadEach (Stmt.storeList ss) = intact (Stmt.constantsList ss) ss := by
  induction ss with
  | nil =>
    rw [Stmt.storeList, loadEach]
    rfl
  | cons s ss ih =>
    obtain ⟨first, later⟩ := List.forall_mem_cons.mp each
    rw [Stmt.storeList, loadEach]
    apply bind_eq_intact first
    exact map_eq_intact (ih later) (s :: ·)

/-- What a stored statement loads as. -/
theorem Stmt.load_store (s : Stmt) : loadStmt s.store = intact s.constants s := by
  induction s using Stmt.nestedInduction with
  | assign x e =>
    have same : allFinite (e.constants ++ ([] ++ [])) = allFinite (Stmt.assign x e).constants := by
      simp [Stmt.constants]
    rw [Stmt.store, Stmt.variant, loadStmt, Stmt.storeContent, loadAssignment, ← intact_congr same]
    apply bind_eq_intact (loadPresent_eq_intact rfl e.load_store)
    apply bind_eq_intact (loadPresent_eq_intact rfl x.load_store)
    rfl
  | block ss ih =>
    have statements : loadStatements (.array (Stmt.storeList ss)) =
        intact (Stmt.constantsList ss) ss := by
      rw [loadStatements]
      exact Stmt.loadEach_storeList ss ih
    have same : allFinite (Stmt.constantsList ss ++ []) = allFinite (Stmt.block ss).constants := by
      simp [Stmt.constants]
    rw [Stmt.store, Stmt.variant, loadStmt, Stmt.storeContent, loadBlock, ← intact_congr same]
    apply bind_eq_intact (loadPresent_eq_intact rfl statements)
    rfl
  | conditional op l r t f iht ihf =>
    have ifFalse : (if (Stmt.storeOption f).isNull = true then .ok none
        else some <$> loadStmt (Stmt.storeOption f)) = intact (Stmt.constantsOption f) f := by
      cases f with
      | none => rfl
      | some f => exact map_eq_intact (ihf f rfl) some
    -- the fields are read in the order of their keys, which is not that of the tree
    have same : allFinite (Stmt.constantsOption f ++ (t.constants ++ (l.constants ++
        ([] ++ (r.constants ++ []))))) = allFinite (Stmt.conditional op l r t f).constants := by
      simp only [Stmt.constants, allFinite_append, allFinite_nil, Bool.true_and, Bool.and_true]
      ac_rfl
    rw [Stmt.store, Stmt.variant, loadStmt, Stmt.storeContent, loadConditional,
      ← intact_congr same]
    apply bind_eq_intact (loadPresent_eq_intact rfl ifFalse)
    apply bind_eq_intact (loadPresent_eq_intact rfl iht)
    apply bind_eq_intact (loadPresent_eq_intact rfl l.load_store)
    apply bind_eq_intact (loadPresent_eq_intact rfl op.load_store)
    apply bind_eq_intact (loadPresent_eq_intact rfl r.load_store)
    rfl

/-! ## Whatever loads -/

/-- If a load succeeds, its result is as required. -/
def Yields {α : Type} (p : α → Prop) (load : Except LoadError α) : Prop := ∀ a, load = .ok a → p a

namespace Yields

variable {α β : Type} {p : α → Prop} {q : β → Prop}

theorem ok {a : α} (here : p a) : Yields p (.ok a) := by
  intro _ same
  cases same
  exact here

theorem error (err : LoadError) : Yields p (.error err) := by
  intro _ same
  cases same

theorem bind {x : Except LoadError α} {next : α → Except LoadError β} (first : Yields p x)
    (later : ∀ a, p a → Yields q (next a)) : Yields q (x >>= next) := by
  cases x with
  | error err => exact error err
  | ok a => exact later a (first a rfl)

theorem map {x : Except LoadError α} (first : Yields p x) (f : α → β)
    (later : ∀ a, p a → q (f a)) : Yields q (f <$> x) := by
  cases x with
  | error err => exact error err
  | ok a => exact ok (later a (first a rfl))

/-- Of what is not needed later nothing is required. -/
theorem anything (x : Except LoadError α) : Yields (fun _ => True) x := fun _ _ => trivial

/-- A field that may be absent. -/
theorem present {field : Option Json} {load : (v : Json) → field = some v → Except LoadError α}
    (each : ∀ v found, Yields p (load v found)) :
    Yields (fun a => ∀ b ∈ a, p b) (loadPresent field load) := by
  cases field with
  | none => exact ok nofun
  | some v =>
    refine (each v rfl).map some ?_
    rintro a here _ ⟨⟩
    exact here

theorem required {name : String} {a : Option α} (here : ∀ b ∈ a, p b) :
    Yields p (required name a) := by
  cases a with
  | none => exact error _
  | some a => exact ok (here a rfl)

/-- An element of a list that stands for a record. -/
theorem element {items : List Json} {record : String} {fields i : Nat}
    {load : (v : Json) → items[i]? = some v → Except LoadError α}
    (each : ∀ v found, Yields p (load v found)) :
    Yields p (loadElement items record fields i load) := by
  unfold loadElement
  split
  next v found => exact each v found
  · exact error _

end Yields

theorem Binary64.canonical_of_isFinite {x : Binary64} (finite : x.isFinite = true) :
    x.canonical = x := by
  rw [Binary64.canonical, Binary64.not_isNaN_of_isFinite finite, if_neg Bool.false_ne_true]

theorem Json.sizeOf_content_lt (name : String) (content : Json) :
    sizeOf content < sizeOf (Json.object [(name, content)]) := by
  have found : Json.member? [(name, content)] name = some content := by
    simp [Json.member?]
  exact Json.sizeOf_lt_of_member? found

/-- Every constant of the tree is a number that JSON has. -/
def Storable {α : Type} (constants : α → List Constant) (a : α) : Prop :=
  allFinite (constants a) = true

theorem loadConstant_yields (v : Json) : Yields (Storable fun c => [c]) (loadConstant v) := by
  cases v with
  | number n finite =>
    have same : (Constant.ofNumber n.value).value = n.value :=
      Binary64.canonical_of_isFinite finite
    refine .ok (allFinite_eq_true_iff.mpr (List.forall_mem_singleton.mpr ?_))
    rw [same]
    exact finite
  | _ => exact .error _

/-! ### Expressions -/

theorem Expr.storable_binary {op : Operator} {l r : Expr} (left : Storable Expr.constants l)
    (right : Storable Expr.constants r) : Storable Expr.constants (.binary op l r) := by
  show allFinite (Expr.binary op l r).constants = true
  rw [Expr.constants, allFinite_append, Bool.and_eq_true]
  exact ⟨left, right⟩

/-- What loads as a binary operation, if smaller values load as they should. -/
theorem loadBinary_yields (v : Json)
    (each : ∀ w, sizeOf w < sizeOf v → Yields (Storable Expr.constants) (loadExpr w)) :
    Yields (Storable Expr.constants) (loadBinary v) := by
  rw [loadBinary.eq_def]
  split
  next members =>
    have field : ∀ key w, Json.member? members key = some w →
        Yields (Storable Expr.constants) (loadExpr w) :=
      fun key w found => each w (Json.sizeOf_lt_of_member? found)
    refine .bind (.present (field "lhs")) fun lhs left => ?_
    refine .bind (.anything _) fun operator _ => ?_
    refine .bind (.present (field "rhs")) fun rhs right => ?_
    refine .bind (.anything _) fun op _ => ?_
    refine .bind (.required left) fun l left => ?_
    refine .bind (.required right) fun r right => ?_
    exact .ok (Expr.storable_binary left right)
  next items =>
    have element : ∀ i w, items[i]? = some w → Yields (Storable Expr.constants) (loadExpr w) :=
      fun i w found => each w (Json.sizeOf_lt_of_getElem? found)
    refine .bind (.anything _) fun op _ => ?_
    refine .bind (.element (element 1)) fun l left => ?_
    refine .bind (.element (element 2)) fun r right => ?_
    refine .bind (.anything _) fun _ _ => ?_
    exact .ok (Expr.storable_binary left right)
  · exact .error _

/-- Whatever loads as an expression can be stored. -/
theorem loadExpr_yields (v : Json) : Yields (Storable Expr.constants) (loadExpr v) := by
  induction size : sizeOf v using Nat.strongRecOn generalizing v with
  | ind k ih =>
    subst size
    rw [loadExpr.eq_def]
    split
    next content => exact (loadConstant_yields content).map Expr.const fun c finite => finite
    next content => exact (Yields.anything (loadVariable content)).map Expr.var fun _ _ => rfl
    next content =>
      refine loadBinary_yields content fun w smaller => ih _ ?_ w rfl
      exact Nat.lt_trans smaller (Json.sizeOf_content_lt "Binary" content)
    all_goals exact .error _

/-! ### Statements -/

theorem loadAssignment_yields (v : Json) :
    Yields (Storable Stmt.constants) (loadAssignment v) := by
  have whole : ∀ x e, Storable Expr.constants e → Storable Stmt.constants (.assign x e) := by
    intro x e value
    show allFinite (Stmt.assign x e).constants = true
    rw [Stmt.constants]
    exact value
  unfold loadAssignment
  split
  next members =>
    refine .bind (.present fun w _ => loadExpr_yields w) fun value here => ?_
    refine .bind (.anything _) fun target _ => ?_
    refine .bind (.anything _) fun x _ => ?_
    refine .bind (.required here) fun e here => ?_
    exact .ok (whole x e here)
  next items =>
    refine .bind (.anything _) fun x _ => ?_
    refine .bind (.element fun w _ => loadExpr_yields w) fun e here => ?_
    refine .bind (.anything _) fun _ _ => ?_
    exact .ok (whole x e here)
  · exact .error _

theorem loadEach_yields (vs : List Json)
    (each : ∀ v ∈ vs, Yields (Storable Stmt.constants) (loadStmt v)) :
    Yields (Storable Stmt.constantsList) (loadEach vs) := by
  induction vs with
  | nil =>
    rw [loadEach]
    exact .ok rfl
  | cons v vs ih =>
    obtain ⟨first, later⟩ := List.forall_mem_cons.mp each
    rw [loadEach]
    refine .bind first fun s here => .bind (ih later) fun ss there => .ok ?_
    show allFinite (Stmt.constantsList (s :: ss)) = true
    rw [Stmt.constantsList, allFinite_append, Bool.and_eq_true]
    exact ⟨here, there⟩

theorem loadStatements_yields (v : Json)
    (each : ∀ w, sizeOf w < sizeOf v → Yields (Storable Stmt.constants) (loadStmt w)) :
    Yields (Storable Stmt.constantsList) (loadStatements v) := by
  rw [loadStatements.eq_def]
  split
  next items =>
    refine loadEach_yields items fun w here => each w ?_
    obtain ⟨i, found⟩ := List.getElem?_of_mem here
    exact Json.sizeOf_lt_of_getElem? found
  · exact .error _

/-- What loads as a block, if smaller values load as they should. -/
theorem loadBlock_yields (v : Json)
    (each : ∀ w, sizeOf w < sizeOf v → Yields (Storable Stmt.constants) (loadStmt w)) :
    Yields (Storable Stmt.constants) (loadBlock v) := by
  have whole : ∀ ss, Storable Stmt.constantsList ss → Storable Stmt.constants (.block ss) := by
    intro ss statements
    show allFinite (Stmt.block ss).constants = true
    rw [Stmt.constants]
    exact statements
  rw [loadBlock.eq_def]
  split
  next members =>
    have field : ∀ w, Json.member? members "statements" = some w →
        Yields (Storable Stmt.constantsList) (loadStatements w) := fun w found =>
      loadStatements_yields w fun u smaller =>
        each u (Nat.lt_trans smaller (Json.sizeOf_lt_of_member? found))
    refine .bind (.present field) fun statements here => ?_
    refine .bind (.required here) fun ss here => ?_
    exact .ok (whole ss here)
  next items =>
    have element : ∀ w, items[0]? = some w →
        Yields (Storable Stmt.constantsList) (loadStatements w) := fun w found =>
      loadStatements_yields w fun u smaller =>
        each u (Nat.lt_trans smaller (Json.sizeOf_lt_of_getElem? found))
    refine .bind (.element element) fun ss here => ?_
    refine .bind (.anything _) fun _ _ => ?_
    exact .ok (whole ss here)
  · exact .error _

theorem Stmt.storable_conditional {op : Comparison} {l r : Expr} {t : Stmt} {f : Option Stmt}
    (left : Storable Expr.constants l) (right : Storable Expr.constants r)
    (ifTrue : Storable Stmt.constants t) (ifFalse : Storable Stmt.constantsOption f) :
    Storable Stmt.constants (.conditional op l r t f) := by
  show allFinite (Stmt.conditional op l r t f).constants = true
  rw [Stmt.constants, allFinite_append, allFinite_append, allFinite_append, Bool.and_eq_true,
    Bool.and_eq_true, Bool.and_eq_true]
  exact ⟨left, right, ifTrue, ifFalse⟩

theorem loadBranch_yields (v : Json) (stmt : Yields (Storable Stmt.constants) (loadStmt v)) :
    Yields (Storable Stmt.constantsOption)
      (if v.isNull then .ok none else some <$> loadStmt v) := by
  split
  · exact .ok rfl
  · exact stmt.map some fun s here => here

/-- What loads as a conditional, if smaller values load as they should. -/
theorem loadConditional_yields (v : Json)
    (each : ∀ w, sizeOf w < sizeOf v → Yields (Storable Stmt.constants) (loadStmt w)) :
    Yields (Storable Stmt.constants) (loadConditional v) := by
  rw [loadConditional.eq_def]
  split
  next members =>
    have field : ∀ key w, Json.member? members key = some w →
        Yields (Storable Stmt.constants) (loadStmt w) :=
      fun key w found => each w (Json.sizeOf_lt_of_member? found)
    refine .bind (.present fun w found => loadBranch_yields w (field "if_false" w found))
      fun otherwise ifFalse => ?_
    refine .bind (.present (field "if_true")) fun branch ifTrue => ?_
    refine .bind (.present fun w _ => loadExpr_yields w) fun lhs left => ?_
    refine .bind (.anything _) fun operator _ => ?_
    refine .bind (.present fun w _ => loadExpr_yields w) fun rhs right => ?_
    refine .bind (.anything _) fun op _ => ?_
    refine .bind (.required left) fun l left => ?_
    refine .bind (.required right) fun r right => ?_
    refine .bind (.required ifTrue) fun t ifTrue => ?_
    refine .ok (Stmt.storable_conditional left right ifTrue ?_)
    cases otherwise with
    | none => rfl
    | some f => exact ifFalse f rfl
  next items =>
    have element : ∀ i w, items[i]? = some w → Yields (Storable Stmt.constants) (loadStmt w) :=
      fun i w found => each w (Json.sizeOf_lt_of_getElem? found)
    refine .bind (.anything _) fun op _ => ?_
    refine .bind (.element fun w _ => loadExpr_yields w) fun l left => ?_
    refine .bind (.element fun w _ => loadExpr_yields w) fun r right => ?_
    refine .bind (.element (element 3)) fun t ifTrue => ?_
    refine .bind (.element fun w found => loadBranch_yields w (element 4 w found))
      fun f ifFalse => ?_
    refine .bind (.anything _) fun _ _ => ?_
    exact .ok (Stmt.storable_conditional left right ifTrue ifFalse)
  · exact .error _

/-- Whatever loads as a statement can be stored. -/
theorem loadStmt_yields (v : Json) : Yields (Storable Stmt.constants) (loadStmt v) := by
  induction size : sizeOf v using Nat.strongRecOn generalizing v with
  | ind k ih =>
    subst size
    have inside : ∀ name content, sizeOf (Json.object [(name, content)]) ≤ sizeOf v →
        ∀ w, sizeOf w < sizeOf content → Yields (Storable Stmt.constants) (loadStmt w) := by
      intro name content here w smaller
      have := Json.sizeOf_content_lt name content
      exact ih _ (by omega) w rfl
    rw [loadStmt.eq_def]
    split
    next content => exact loadAssignment_yields content
    next content => exact loadBlock_yields content (inside "Block" content (Nat.le_refl _))
    next content =>
      exact loadConditional_yields content (inside "Conditional" content (Nat.le_refl _))
    all_goals exact .error _

/-! ## The round trip -/

/-- What storing and loading do to the trees of one family. -/
structure RoundTrip {α : Type} (constants : α → List Constant) (store : α → Json)
    (load : Json → Except LoadError α) : Prop where
  /-- A tree whose constants are all finite loads as itself. -/
  restored : ∀ a, (∀ c ∈ constants a, c.value.isFinite = true) → load (store a) = .ok a
  /-- A single NaN or infinity makes the load fail, since it was stored as `null`. -/
  refused : ∀ a, (∃ c ∈ constants a, c.value.isFinite = false) →
    load (store a) = .error (.wrongType .null "f64")
  /-- Whatever loads as a tree, the tree loads again from its own stored form. -/
  settled : ∀ v a, load v = .ok a → load (store a) = .ok a

theorem RoundTrip.of_intact {α : Type} {constants : α → List Constant} {store : α → Json}
    {load : Json → Except LoadError α} (stored : ∀ a, load (store a) = intact (constants a) a)
    (loaded : ∀ v, Yields (Storable constants) (load v)) : RoundTrip constants store load where
  restored a finite := by
    rw [stored, intact, allFinite_eq_true_iff.mpr finite]
    rfl
  refused a infinite := by
    rw [stored, intact, allFinite_eq_false_iff.mpr infinite]
    rfl
  settled v a here := by
    rw [stored, intact, loaded v a here]
    rfl

/-- Expressions, statements and variables go through the cache unchanged, or not at all. -/
theorem roundTrip_of_tree :
    RoundTrip Expr.constants Expr.store loadExpr ∧
    RoundTrip Stmt.constants Stmt.store loadStmt ∧
    RoundTrip (fun _ => []) Variable.store loadVariable := by
  refine ⟨.of_intact Expr.load_store loadExpr_yields,
    .of_intact Stmt.load_store loadStmt_yields, ?_⟩
  refine .of_intact Variable.load_store fun v => ?_
  intro _ _
  rfl

end Abacus
