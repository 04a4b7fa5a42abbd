import Abacus.Proofs.Eval.Frame
import Abacus.Proofs.Tree.Places

/-!
# What a run does, and where

A journal tells what a run reads and writes, but not which nodes of the tree do so.
The *account* of a run does.  It lists the acts of the run, its accesses and events,
each with the path of the node that acts.  Without the paths these are the acts of the
run itself (`Stmt.account_records`).

The paths show two things.

* The reads, the writes and the comparisons are each made in the order of the walk
  (`Stmt.account_inWalkOrder`).  Nodes are left out, where a branch is not taken or a read
  has failed, but no node acts twice.  Reads and writes together are not in that order,
  since a target is visited before the value that it gets.
* Below a conditional that was reached, nothing is done in the branch that was not
  selected (`Stmt.account_sparesBranches`).
-/

namespace Abacus

/-- Something that a run does. -/
inductive Act where
  | access (made : Access)
  | event (told : Event)

namespace Act

/-- The access, if it is one. -/
def access? : Act → Option Access
  | .access made => some made
  | .event _ => none

/-- The event, if it is one. -/
def event? : Act → Option Event
  | .access _ => none
  | .event told => some told

/-- The name that is read. -/
def readName? : Act → Option String
  | .access (.get name _) => some name
  | _ => none

/-- The name that is written. -/
def writtenName? : Act → Option String
  | .access (.set name _) => some name
  | _ => none

/-- The comparison that is made. -/
def comparison? : Act → Option Comparison
  | .event (.conditional op _ _ _) => some op
  | _ => none

theorem asked_accesses (acts : List Act) :
    Access.asked (acts.filterMap access?) = acts.filterMap readName? := by
  induction acts with
  | nil => rfl
  | cons act acts ih =>
    match act with
    | .access (.get name value) => exact congrArg (name :: ·) ih
    | .access (.set name value) => exact ih
    | .event told => exact ih

theorem written_accesses (acts : List Act) :
    (Access.written (acts.filterMap access?)).map Prod.fst = acts.filterMap writtenName? := by
  induction acts with
  | nil => rfl
  | cons act acts ih =>
    match act with
    | .access (.get name value) => exact ih
    | .access (.set name value) => exact congrArg (name :: ·) ih
    | .event told => exact ih

end Act

/-- The comparison that a node makes, if it is a conditional. -/
def Node.comparison? : Node → Option Comparison
  | .stmt (.conditional op _ _ _ _) => some op
  | _ => none

/-! ## Accounts -/

/-- How an evaluation or a run ended, and what it did. -/
structure Account (σ α : Type) where
  /-- The result, or the error of the read that failed. -/
  answer : Except EvalError α
  /-- The context afterwards. -/
  state : σ
  /-- The acts in order, each with the path of the node that acts. -/
  deeds : List (List Nat × Act)

namespace Account

variable {σ α β : Type}

/-- Goes on if nothing failed. -/
def bind (a : Account σ α) (more : α → σ → Account σ β) : Account σ β :=
  match a.answer with
  | .error err => ⟨.error err, a.state, a.deeds⟩
  | .ok x => ⟨(more x a.state).answer, (more x a.state).state, a.deeds ++ (more x a.state).deeds⟩

/-- The same account, seen from the parent. -/
def atChild (index : Nat) (a : Account σ α) : Account σ α :=
  { a with deeds := a.deeds.map (Node.atChild index) }

/-- The root tells an event first. -/
def report (event : Event) (a : Account σ α) : Account σ α :=
  { a with deeds := ([], .event event) :: a.deeds }

/-- What was done, wherever it was done. -/
def acts (a : Account σ α) : List Act := a.deeds.map Prod.snd

theorem answers_atChild {γ : Type} {f : Act → Option γ} (index : Nat) (a : Account σ α) :
    answers f (a.atChild index).deeds = (answers f a.deeds).map (Node.atChild index) :=
  Abacus.answers_atChild index a.deeds

theorem silent_atChild {γ : Type} {f : Act → Option γ} (index : Nat) {a : Account σ α}
    (silent : (answers f a.deeds).Sublist []) :
    (answers f (a.atChild index).deeds).Sublist [] := by
  rw [answers_atChild]
  exact silent.map _

/-- What follows adds its deeds, unless a read has failed. -/
theorem deeds_bind (a : Account σ α) (more : α → σ → Account σ β) :
    (a.bind more).deeds = a.deeds ∨
      ∃ x, (a.bind more).deeds = a.deeds ++ (more x a.state).deeds := by
  obtain ⟨answer, state, deeds⟩ := a
  cases answer with
  | error err => exact .inl rfl
  | ok x => exact .inr ⟨x, rfl⟩

/-- Answers from two parts come in the order of the two. -/
theorem answers_bind {γ : Type} {f : Act → Option γ} {a : Account σ α}
    {more : α → σ → Account σ β} {xs ys : List (List Nat × γ)}
    (first : (answers f a.deeds).Sublist xs)
    (second : ∀ x s, (answers f (more x s).deeds).Sublist ys) :
    (answers f (a.bind more).deeds).Sublist (xs ++ ys) := by
  rcases a.deeds_bind more with same | ⟨x, same⟩
  · rw [same]
    exact first.trans (List.sublist_append_left ..)
  · rw [same, answers_append]
    exact first.append (second x _)

end Account

section

variable {σ : Type} [Context σ] [Arithmetic]

/-- Evaluates an expression and tells which of its nodes read. -/
def Expr.account : Expr → σ → Account σ Binary64
  | .const c, s => ⟨.ok c.value, s, []⟩
  | .var v, s =>
    ⟨(Context.read s v.name).1, (Context.read s v.name).2,
      [([], .access (.get v.name (Context.read s v.name).1.toOption))]⟩
  | .binary op l r, s =>
    ((l.account s).atChild 0).bind fun x s => ((r.account s).atChild 1).bind fun y s =>
      ⟨.ok (op.apply x y), s, []⟩

mutual

/-- Runs a statement and tells which of its nodes act.  Children are numbered as they are
in the tree: a target and its value, the operands and the branches of a conditional. -/
def Stmt.account : Stmt → σ → Account σ Unit
  | .assign x e, s =>
    ((e.account s).atChild 1).bind fun v s =>
      ⟨.ok (), Context.write s x.name v,
        [([], .event (.assign x.name v)), ([0], .access (.set x.name v))]⟩
  | .block ss, s => Stmt.accountFrom 0 ss s
  | .conditional op l r t f, s =>
    ((l.account s).atChild 0).bind fun x s => ((r.account s).atChild 1).bind fun y s =>
      Account.report (.conditional op x y (op.holds x y))
        (if op.holds x y then (t.account s).atChild 2 else (Stmt.accountOption f s).atChild 3)

/-- Runs statements one after the other, where the first has the given index. -/
def Stmt.accountFrom (index : Nat) : List Stmt → σ → Account σ Unit
  | [], s => ⟨.ok (), s, []⟩
  | stmt :: ss, s =>
    ((stmt.account s).atChild index).bind fun _ s => Stmt.accountFrom (index + 1) ss s

/-- Runs a statement that may be absent. -/
def Stmt.accountOption : Option Stmt → σ → Account σ Unit
  | none, s => ⟨.ok (), s, []⟩
  | some stmt, s => stmt.account s

end

end

/-! ## The acts are those of the run -/

namespace Account

variable {σ α β : Type} [Context σ]

/-- Without its paths, the account is what comes of holding the dialogue. -/
structure Records (a : Account σ α) (d : Dialogue α) (s : σ) : Prop where
  hold : d.hold s = ⟨a.answer, a.state, a.acts.filterMap Act.event?⟩
  transcript : d.transcript s = a.acts.filterMap Act.access?

theorem Records.atChild {a : Account σ α} {d : Dialogue α} {s : σ} (records : a.Records d s)
    (index : Nat) : (a.atChild index).Records d s := by
  have acts : (a.atChild index).acts = a.acts := by
    rw [Account.acts, Account.atChild, List.map_map]
    rfl
  constructor
  · rw [records.hold, acts]
    rfl
  · rw [records.transcript, acts]

theorem Records.report {a : Account σ α} {d : Dialogue α} {s : σ} (records : a.Records d s)
    (event : Event) : (a.report event).Records (.report event d) s := by
  constructor
  · rw [Dialogue.hold, records.hold]
    rfl
  · rw [Dialogue.transcript, records.transcript]
    rfl

theorem Records.bind {a : Account σ α} {d : Dialogue α} {s : σ} (first : a.Records d s)
    {more : α → σ → Account σ β} {next : α → Dialogue β}
    (second : ∀ x s, (more x s).Records (next x) s) : (a.bind more).Records (d.bind next) s := by
  obtain ⟨hold, transcript⟩ := first
  obtain ⟨answer, state, deeds⟩ := a
  cases answer with
  | error err =>
    constructor
    · rw [Dialogue.hold_bind, hold]
      rfl
    · rw [Dialogue.transcript_bind, transcript, hold]
      exact List.append_nil _
  | ok x =>
    have later := second x state
    have acts : Account.acts (Account.bind ⟨.ok x, state, deeds⟩ more) =
        deeds.map Prod.snd ++ (more x state).acts := List.map_append
    constructor
    · rw [Dialogue.hold_bind, hold, acts, List.filterMap_append]
      simp only [later.hold]
      rfl
    · rw [Dialogue.transcript_bind, transcript, hold, acts, List.filterMap_append]
      simp only [later.transcript]
      rfl

end Account

section

variable {σ : Type} [Context σ] [Arithmetic]

theorem Expr.account_records (e : Expr) (s : σ) : (e.account s).Records e.dialogue s := by
  induction e generalizing s with
  | const c => exact ⟨rfl, rfl⟩
  | var v =>
    have read : (Expr.var v).dialogue = .ask v.name .done := rfl
    rw [read]
    constructor
    · rw [Dialogue.hold, Expr.account]
      obtain ⟨answer, s⟩ := Context.read s v.name
      cases answer <;> rfl
    · rw [Dialogue.transcript, Expr.account]
      obtain ⟨answer, s⟩ := Context.read s v.name
      cases answer <;> rfl
  | binary op l r ihl ihr =>
    exact ((ihl s).atChild 0).bind fun x s => ((ihr s).atChild 1).bind fun y s => ⟨rfl, rfl⟩

theorem Stmt.accountFrom_records (index : Nat) (ss : List Stmt)
    (each : ∀ stmt ∈ ss, ∀ s : σ, (stmt.account s).Records stmt.dialogue s) (s : σ) :
    (Stmt.accountFrom index ss s).Records (Stmt.dialogueList ss) s := by
  induction ss generalizing index s with
  | nil => exact ⟨rfl, rfl⟩
  | cons stmt ss ih =>
    obtain ⟨first, others⟩ := List.forall_mem_cons.mp each
    rw [Stmt.accountFrom, Stmt.dialogueList]
    exact ((first s).atChild index).bind fun _ s => ih (index + 1) others s

/-- The account of a statement tells of its run. -/
theorem Stmt.account_records (stmt : Stmt) (s : σ) : (stmt.account s).Records stmt.dialogue s := by
  induction stmt using Stmt.nestedInduction generalizing s with
  | assign x e =>
    rw [Stmt.account, Stmt.dialogue]
    exact ((e.account_records s).atChild 1).bind fun v s => ⟨rfl, rfl⟩
  | block ss ih =>
    rw [Stmt.account, Stmt.dialogue]
    exact Stmt.accountFrom_records 0 ss ih s
  | conditional op l r t f iht ihf =>
    rw [Stmt.account, Stmt.dialogue]
    refine ((l.account_records s).atChild 0).bind fun x s =>
      ((r.account_records s).atChild 1).bind fun y s => ?_
    apply Account.Records.report
    split
    · exact (iht s).atChild 2
    · cases f with
      | none => exact ⟨rfl, rfl⟩
      | some f => exact (ihf f rfl s).atChild 3

end

/-! ## The order of the acts -/

/-- Reads, writes and comparisons are each made in the order in which the places that
make them are listed, and none is made twice. -/
structure InWalkOrder (deeds : List (List Nat × Act)) (places : List (List Nat × Node)) : Prop where
  reads : (answers Act.readName? deeds).Sublist (answers Node.readName? places)
  writes : (answers Act.writtenName? deeds).Sublist (answers Node.targetName? places)
  comparisons : (answers Act.comparison? deeds).Sublist (answers Node.comparison? places)

namespace InWalkOrder

variable {deeds : List (List Nat × Act)} {places more : List (List Nat × Node)}

theorem nil (places : List (List Nat × Node)) : InWalkOrder [] places :=
  ⟨List.nil_sublist _, List.nil_sublist _, List.nil_sublist _⟩

/-- Places that do not act may be added anywhere. -/
theorem skip (ordered : InWalkOrder deeds places) (within : places.Sublist more) :
    InWalkOrder deeds more :=
  ⟨ordered.reads.trans (within.filterMap _), ordered.writes.trans (within.filterMap _),
    ordered.comparisons.trans (within.filterMap _)⟩

variable {σ α β : Type} {a : Account σ α}

theorem report {op : Comparison} {x y : Binary64} {holds : Bool} {l r : Expr} {t : Stmt}
    {f : Option Stmt} (ordered : InWalkOrder a.deeds places) :
    InWalkOrder (a.report (.conditional op x y holds)).deeds
      (([], .stmt (.conditional op l r t f)) :: places) :=
  ⟨ordered.reads, ordered.writes, ordered.comparisons.cons_cons ([], op)⟩

theorem atChild (ordered : InWalkOrder a.deeds places) (index : Nat) :
    InWalkOrder (a.atChild index).deeds (places.map (Node.atChild index)) := by
  constructor
  · rw [a.answers_atChild, answers_atChild]
    exact ordered.reads.map _
  · rw [a.answers_atChild, answers_atChild]
    exact ordered.writes.map _
  · rw [a.answers_atChild, answers_atChild]
    exact ordered.comparisons.map _

theorem bind {next : α → σ → Account σ β} (first : InWalkOrder a.deeds places)
    (second : ∀ x s, InWalkOrder (next x s).deeds more) :
    InWalkOrder (a.bind next).deeds (places ++ more) := by
  constructor
  · rw [answers_append]
    exact Account.answers_bind first.reads fun x s => (second x s).reads
  · rw [answers_append]
    exact Account.answers_bind first.writes fun x s => (second x s).writes
  · rw [answers_append]
    exact Account.answers_bind first.comparisons fun x s => (second x s).comparisons

end InWalkOrder

section

variable {σ : Type} [Context σ] [Arithmetic]

theorem Expr.account_inWalkOrder (e : Expr) (s : σ) :
    InWalkOrder (e.account s).deeds (Node.expr e).places := by
  induction e generalizing s with
  | const c => exact .nil _
  | var v =>
    rw [Node.places_eq]
    exact ⟨List.Sublist.refl _, List.nil_sublist _, List.nil_sublist _⟩
  | binary op l r ihl ihr =>
    have operands : InWalkOrder ((Expr.binary op l r).account s).deeds
        ((Node.expr l).places.map (Node.atChild 0) ++
          ((Node.expr r).places.map (Node.atChild 1) ++ [])) :=
      ((ihl s).atChild 0).bind fun x s => ((ihr s).atChild 1).bind fun y s => .nil _
    rw [List.append_nil] at operands
    rw [Node.places_binary]
    exact operands.skip (List.sublist_cons_self ..)

/-- An expression does nothing but read. -/
theorem Expr.account_silent {γ : Type} {f : Act → Option γ}
    (silent : ∀ name value, f (.access (.get name value)) = none) (e : Expr) (s : σ) :
    (answers f (e.account s).deeds).Sublist [] := by
  induction e generalizing s with
  | const c => exact List.nil_sublist _
  | var v =>
    rw [Expr.account, answers_cons, silent]
    exact List.nil_sublist _
  | binary op l r ihl ihr =>
    exact Account.answers_bind (Account.silent_atChild 0 (ihl s)) fun x s =>
      Account.answers_bind (Account.silent_atChild 1 (ihr s)) fun y s => List.nil_sublist []

/-- An operand is visited behind the node that it belongs to, and evaluated before that
node acts.  As it only reads, the order of reads, writes and comparisons is kept. -/
theorem Expr.operand_inWalkOrder (e : Expr) (s : σ) (index : Nat) {β : Type}
    {next : Binary64 → σ → Account σ β} (roots : List (List Nat × Node))
    {more : List (List Nat × Node)} (unread : answers Node.readName? roots = [])
    (later : ∀ x s, InWalkOrder (next x s).deeds (roots ++ more)) :
    InWalkOrder (((e.account s).atChild index).bind next).deeds
      (roots ++ ((Node.expr e).places.map (Node.atChild index) ++ more)) := by
  have operand := (e.account_inWalkOrder s).atChild index
  have inserted : (roots ++ more).Sublist
      (roots ++ ((Node.expr e).places.map (Node.atChild index) ++ more)) :=
    (List.Sublist.refl roots).append (List.sublist_append_right ..)
  have silent : ∀ {γ : Type} {f : Act → Option γ},
      (∀ name value, f (.access (.get name value)) = none) →
      (answers f ((e.account s).atChild index).deeds).Sublist [] :=
    fun silent => Account.silent_atChild index (e.account_silent silent s)
  constructor
  · rw [answers_append, unread, List.nil_append, answers_append]
    refine Account.answers_bind operand.reads fun x s => ?_
    have reads := (later x s).reads
    rw [answers_append, unread, List.nil_append] at reads
    exact reads
  · refine List.Sublist.trans ?_ (inserted.filterMap _)
    exact Account.answers_bind (silent fun _ _ => rfl) fun x s => (later x s).writes
  · refine List.Sublist.trans ?_ (inserted.filterMap _)
    exact Account.answers_bind (silent fun _ _ => rfl) fun x s => (later x s).comparisons

theorem Stmt.accountFrom_inWalkOrder (index : Nat) (ss : List Stmt)
    (each : ∀ stmt ∈ ss, ∀ s : σ, InWalkOrder (stmt.account s).deeds (Node.stmt stmt).places)
    (s : σ) :
    InWalkOrder (Stmt.accountFrom index ss s).deeds (Node.placesFrom index (ss.map .stmt)) := by
  induction ss generalizing index s with
  | nil => exact .nil _
  | cons stmt ss ih =>
    obtain ⟨first, others⟩ := List.forall_mem_cons.mp each
    rw [List.map_cons, Node.placesFrom_cons, Stmt.accountFrom]
    exact ((first s).atChild index).bind fun _ s => ih (index + 1) others s

/-- A run acts in the order of the walk. -/
theorem Stmt.account_inWalkOrder (stmt : Stmt) (s : σ) :
    InWalkOrder (stmt.account s).deeds (Node.stmt stmt).places := by
  induction stmt using Stmt.nestedInduction generalizing s with
  | assign x e =>
    have assigned : ∀ (v : Binary64),
        InWalkOrder [([], .event (.assign x.name v)), ([0], .access (.set x.name v))]
          [([], .stmt (.assign x e)), ([0], .var x)] :=
      fun v => ⟨List.nil_sublist _, List.Sublist.refl _, List.nil_sublist _⟩
    rw [Node.places_assign, Stmt.account, ← List.append_nil ((Node.expr e).places.map _)]
    exact e.operand_inWalkOrder s 1 [_, _] rfl fun v s => assigned v
  | block ss ih =>
    rw [Node.places_block, Stmt.account]
    exact (Stmt.accountFrom_inWalkOrder 0 ss ih s).skip (List.sublist_cons_self ..)
  | conditional op l r t f iht ihf =>
    rw [Node.places_conditional, Stmt.account]
    refine l.operand_inWalkOrder s 0 [_] rfl fun x s =>
      r.operand_inWalkOrder s 1 [_] rfl fun y s => ?_
    apply InWalkOrder.report
    split
    · exact ((iht s).atChild 2).skip (List.sublist_append_left ..)
    · cases f with
      | none => exact .nil _
      | some f =>
        rw [Option.toList_some, List.map_singleton, Node.placesFrom_cons, Node.placesFrom_nil,
          List.append_nil]
        exact ((ihf f rfl s).atChild 3).skip (List.sublist_append_right ..)

end

/-! ## Branches that are not selected -/

/-- The index of the branch that is not selected among the children of a conditional. -/
def unselected (holds : Bool) : Nat := if holds then 3 else 2

/-- Where a conditional was decided, nothing is done in the branch that was not selected. -/
def SparesBranches (deeds : List (List Nat × Act)) : Prop :=
  ∀ path op x y holds, (path, .event (.conditional op x y holds)) ∈ deeds →
    ∀ d ∈ deeds, ¬ path ++ [unselected holds] <+: d.1

theorem SparesBranches.of_silent {deeds : List (List Nat × Act)}
    (silent : (answers Act.comparison? deeds).Sublist []) : SparesBranches deeds := by
  intro path op x y holds told
  have compared : (path, op) ∈ answers Act.comparison? deeds :=
    List.mem_filterMap.mpr ⟨_, told, rfl⟩
  rw [List.sublist_nil.mp silent] at compared
  cases compared

/-- Branches are spared, and what is done is done below children from an index on, or by
the root if it is a conditional and the operands come before the index. -/
structure SparesFrom (index : Nat) (deeds : List (List Nat × Act)) : Prop where
  spares : SparesBranches deeds
  beyond : ∀ d ∈ deeds, (d.1 = [] ∧ index ≤ 2) ∨ ∃ i path, index ≤ i ∧ d.1 = i :: path

namespace SparesFrom

variable {σ α β : Type} {index : Nat}

theorem nil : SparesFrom index [] := ⟨nofun, nofun⟩

/-- What is done below one child is apart from what is done below later ones. -/
theorem append {ds es : List (List Nat × Act)} (first : SparesBranches ds)
    (second : SparesFrom (index + 1) es) :
    SparesFrom index (ds.map (Node.atChild index) ++ es) := by
  constructor
  · intro path op x y holds told d here within
    rcases List.mem_append.mp told with told | told
    · obtain ⟨⟨inner, act⟩, there, same⟩ := List.mem_map.mp told
      cases same
      rcases List.mem_append.mp here with here | here
      · obtain ⟨e, inside, rfl⟩ := List.mem_map.mp here
        exact first inner op x y holds there e inside (List.cons_prefix_cons.mp within).2
      · rcases second.beyond d here with ⟨root, -⟩ | ⟨i, rest, above, same⟩
        · rw [root] at within
          cases List.prefix_nil.mp within
        · rw [same] at within
          exact Nat.ne_of_lt above (List.cons_prefix_cons.mp within).1
    · rcases List.mem_append.mp here with here | here
      · obtain ⟨e, -, rfl⟩ := List.mem_map.mp here
        rcases second.beyond _ told with ⟨rfl, operand⟩ | ⟨i, rest, above, rfl⟩
        · -- the event of the root itself, and an operand is no branch
          have branch := (List.cons_prefix_cons.mp within).1
          cases holds <;> simp [unselected] at branch <;> omega
        · exact Nat.ne_of_gt above (List.cons_prefix_cons.mp within).1
      · exact second.spares path op x y holds told d here within
  · intro d here
    rcases List.mem_append.mp here with here | here
    · obtain ⟨e, -, rfl⟩ := List.mem_map.mp here
      exact .inr ⟨index, e.1, Nat.le_refl _, rfl⟩
    · rcases second.beyond d here with ⟨root, operand⟩ | ⟨i, rest, above, same⟩
      · exact .inl ⟨root, by omega⟩
      · exact .inr ⟨i, rest, by omega, same⟩

theorem bind {a : Account σ α} {next : α → σ → Account σ β} (first : SparesBranches a.deeds)
    (second : ∀ x s, SparesFrom (index + 1) (next x s).deeds) :
    SparesFrom index ((a.atChild index).bind next).deeds := by
  rcases (a.atChild index).deeds_bind next with same | ⟨x, same⟩
  · rw [same, ← List.append_nil (a.atChild index).deeds]
    exact append first .nil
  · rw [same]
    exact append first (second x _)

/-- A conditional spares the branch that it does not select. -/
theorem report (holds : Bool) {a : Account σ α} {op : Comparison} {x y : Binary64}
    (branch : SparesBranches a.deeds) :
    SparesFrom 2 ((a.atChild (unselected !holds)).report (.conditional op x y holds)).deeds := by
  have selected : SparesFrom (unselected !holds) (a.atChild (unselected !holds)).deeds := by
    rw [← List.append_nil (a.atChild _).deeds]
    exact append branch .nil
  constructor
  · intro path op x y holds told d here within
    rcases List.mem_cons.mp here with rfl | here
    · cases (List.append_eq_nil_iff.mp (List.prefix_nil.mp within)).2
    · rcases List.mem_cons.mp told with same | told
      · cases same
        obtain ⟨e, -, rfl⟩ := List.mem_map.mp here
        have both := (List.cons_prefix_cons.mp within).1
        cases holds <;> cases both
      · exact selected.spares path op x y holds told d here within
  · intro d here
    rcases List.mem_cons.mp here with rfl | here
    · exact .inl ⟨rfl, Nat.le_refl 2⟩
    · obtain ⟨e, -, rfl⟩ := List.mem_map.mp here
      exact .inr ⟨unselected !holds, e.1, by cases holds <;> decide, rfl⟩

end SparesFrom

section

variable {σ : Type} [Context σ] [Arithmetic]

theorem Stmt.accountFrom_sparesFrom (index : Nat) (ss : List Stmt)
    (each : ∀ stmt ∈ ss, ∀ s : σ, SparesBranches (stmt.account s).deeds) (s : σ) :
    SparesFrom index (Stmt.accountFrom index ss s).deeds := by
  induction ss generalizing index s with
  | nil => exact .nil
  | cons stmt ss ih =>
    obtain ⟨first, others⟩ := List.forall_mem_cons.mp each
    rw [Stmt.accountFrom]
    exact .bind (first s) fun _ s => ih (index + 1) others s

/-- A run does nothing in a branch that is not selected. -/
theorem Stmt.account_sparesBranches (stmt : Stmt) (s : σ) :
    SparesBranches (stmt.account s).deeds := by
  have silent : ∀ (e : Expr) (s : σ), (answers Act.comparison? (e.account s).deeds).Sublist [] :=
    Expr.account_silent fun _ _ => rfl
  induction stmt using Stmt.nestedInduction generalizing s with
  | assign x e =>
    rw [Stmt.account]
    exact .of_silent (Account.answers_bind (Account.silent_atChild 1 (silent e s)) fun v s =>
      List.nil_sublist [])
  | block ss ih =>
    rw [Stmt.account]
    exact (Stmt.accountFrom_sparesFrom 0 ss ih s).spares
  | conditional op l r t f iht ihf =>
    have branch : ∀ (holds : Bool) (x y : Binary64) (s : σ),
        SparesFrom 2 (Account.report (.conditional op x y holds)
          (if holds then (t.account s).atChild 2
            else (Stmt.accountOption f s).atChild 3)).deeds := by
      intro holds x y s
      cases holds with
      | true => exact .report true (iht s)
      | false =>
        refine .report false ?_
        cases f with
        | none => exact nofun
        | some f => exact ihf f rfl s
    rw [Stmt.account]
    exact SparesFrom.spares (.bind (.of_silent (silent l s)) fun x s =>
      .bind (.of_silent (silent r s)) fun y s => branch (op.holds x y) x y s)

/-! ## Runs -/

/-- A run reads names in the order of the walk, and leaves some of them out. -/
theorem Stmt.asked_sublist (stmt : Stmt) (s : σ) :
    (Access.asked (stmt.dialogue.transcript s)).Sublist (Node.stmt stmt).reads := by
  rw [(stmt.account_records s).transcript, Act.asked_accesses, Account.acts, ← map_snd_answers,
    Node.reads, ← Node.map_snd_places, ← map_snd_answers]
  exact (stmt.account_inWalkOrder s).reads.map Prod.snd

/-- A run writes names in the order of the walk, and leaves some of them out. -/
theorem Stmt.written_sublist (stmt : Stmt) (s : σ) :
    ((Access.written (stmt.dialogue.transcript s)).map Prod.fst).Sublist
      (Node.stmt stmt).targets := by
  rw [(stmt.account_records s).transcript, Act.written_accesses, Account.acts, ← map_snd_answers,
    Node.targets, ← Node.map_snd_places, ← map_snd_answers]
  exact (stmt.account_inWalkOrder s).writes.map Prod.snd

end

/-- The names that a run reads, and those that it writes, are in the order of the walk.  Each
access and each event of the run is the act of a node, and no node reads or writes twice.
Where a conditional was decided, no node of the branch that was not selected acts. -/
theorem run_in_walk_order {σ : Type} [Context σ] (s : Stmt) (c : σ) :
    let log := (s.run (Journal.start c)).state.accesses
    let deeds := (s.account c).deeds
    ((Access.written log).map Prod.fst).Sublist ((Node.stmt s).walk.filterMap Node.targetName?) ∧
    (Access.asked log).Sublist ((Node.stmt s).walk.filterMap Node.readName?) ∧
    (deeds.map Prod.snd).filterMap Act.access? = log ∧
    (deeds.map Prod.snd).filterMap Act.event? = (s.run c).events ∧
    InWalkOrder deeds (Node.stmt s).places ∧
    ((answers Act.readName? deeds).map Prod.fst).Nodup ∧
    ((answers Act.writtenName? deeds).map Prod.fst).Nodup ∧
    SparesBranches deeds := by
  intro log deeds
  have records := s.account_records c
  have ordered := s.account_inWalkOrder c
  have told : log = s.dialogue.transcript c := s.accesses_run_journal c
  rw [told, s.run_eq_hold, records.hold]
  refine ⟨s.written_sublist c, s.asked_sublist c, records.transcript.symm, rfl, ordered,
    ?_, ?_, s.account_sparesBranches c⟩
  · exact ((Node.stmt s).nodup_answers_places _).sublist (ordered.reads.map Prod.fst)
  · exact ((Node.stmt s).nodup_answers_places _).sublist (ordered.writes.map Prod.fst)

/-- Both branches read and write the same names, and only the paths tell which one runs. -/
theorem run_in_walk_order_equalBranches :
    let branch : Stmt := .assign ⟨"z"⟩ (.var ⟨"x"⟩)
    let s : Stmt := .conditional .equals (.var ⟨"x"⟩) (.var ⟨"y"⟩) branch (some branch)
    let env := (Environment.empty.set "x" ⟨1⟩).set "y" ⟨2⟩
    let deeds : List (List Nat × Act) :=
      [([0], .access (.get "x" (some ⟨1⟩))), ([1], .access (.get "y" (some ⟨2⟩))),
        ([], .event (.conditional .equals ⟨1⟩ ⟨2⟩ false)),
        ([3, 1], .access (.get "x" (some ⟨1⟩))), ([3], .event (.assign "z" ⟨1⟩)),
        ([3, 0], .access (.set "z" ⟨1⟩))]
    (s.account env).deeds = deeds ∧
    (s.run (Journal.start env)).state.accesses =
      [.get "x" (some ⟨1⟩), .get "y" (some ⟨2⟩), .get "x" (some ⟨1⟩), .set "z" ⟨1⟩] ∧
    ∀ d ∈ deeds, ¬ [2] <+: d.1 := by
  intro branch s env deeds
  have different : Binary64.same ⟨1⟩ ⟨2⟩ = false := by decide
  have found : (s.account env).deeds = deeds := by
    simp [s, branch, env, deeds, Stmt.account, Stmt.accountOption, Expr.account, Account.bind,
      Account.atChild, Account.report, Node.atChild, Context.read, Environment.get?_set,
      Comparison.holds, different, Except.toOption]
  obtain ⟨-, -, log, -, -, -, -, spared⟩ := run_in_walk_order s env
  rw [found] at log spared
  exact ⟨found, log.symm, spared [] .equals ⟨1⟩ ⟨2⟩ false (by simp [deeds])⟩

end Abacus
