import Mathlib.Data.List.Forall2
import Abacus.Proofs.Eval.Dialogue

/-!
# Which NaN it is makes no difference

NaN has many patterns, and environments keep them apart.  A run does not, as long
as its arithmetic does not.  Let `V` relate numbers that differ at most in the
choice of NaN, and let the arithmetic be *blind* to `V`: operations take related
operands to related results, and the orders give one answer for related operands.
Then a run from related environments tells related events, makes related accesses,
gives the same result and ends in related environments (`runsAlike_of_blindTo`).

The heart of it is a relation between dialogues.  The dialogue of a statement is
related to itself, though its branches depend on the values that it is told: the
comparisons do not see the difference, equality included, since NaN equals NaN.

The arithmetic of the language is blind when quiet NaNs are kept apart from
signaling ones (`Binary64.arithmetic_blindTo`), which its power tells apart.
-/

namespace Abacus

namespace Binary64

/-! ## Numbers up to the choice of NaN -/

/-- The same pattern, or two NaNs of any sign and payload. -/
def UpToNaN (x y : Binary64) : Prop := x = y ∨ x.isNaN = true ∧ y.isNaN = true

/-- The same pattern, or two NaNs that are both quiet or both signaling. -/
def UpToPayload (x y : Binary64) : Prop :=
  x = y ∨ x.isNaN = true ∧ y.isNaN = true ∧ x.isSignaling = y.isSignaling

namespace UpToNaN

variable {x x' y y' z : Binary64}

theorem symm (alike : x.UpToNaN y) : y.UpToNaN x := by
  rcases alike with rfl | ⟨left, right⟩
  · exact .inl rfl
  · exact .inr ⟨right, left⟩

theorem trans (first : x.UpToNaN y) (second : y.UpToNaN z) : x.UpToNaN z := by
  rcases second with rfl | ⟨middle, right⟩
  · exact first
  · rcases first with rfl | ⟨left, -⟩
    · exact .inr ⟨middle, right⟩
    · exact .inr ⟨left, right⟩

theorem canonical_eq (alike : x.UpToNaN y) : x.canonical = y.canonical := by
  rcases alike with rfl | ⟨left, right⟩
  · rfl
  · rw [canonical, canonical, if_pos left, if_pos right]

theorem toFloat_eq (alike : x.UpToNaN y) : x.toFloat = y.toFloat := by
  rw [toFloat, toFloat, alike.canonical_eq]

/-- The language's own equality decides the relation. -/
theorem iff_same : x.UpToNaN y ↔ x.same y = true := by
  have pattern : x = y ↔ x.bits = y.bits := ⟨congrArg bits, congrArg mk⟩
  rw [UpToNaN, pattern, same, Bool.or_eq_true, Bool.and_eq_true, decide_eq_true_iff, or_comm]

theorem same_eq (left : x.UpToNaN x') (right : y.UpToNaN y') : x.same y = x'.same y' := by
  rw [Bool.eq_iff_iff, ← iff_same, ← iff_same]
  constructor
  · intro alike
    exact left.symm.trans (alike.trans right)
  · intro alike
    exact left.trans (alike.trans right.symm)

theorem lt_eq (left : x.UpToNaN x') (right : y.UpToNaN y') : x.lt y = x'.lt y' := by
  rcases left with rfl | ⟨nan, nan'⟩
  · rcases right with rfl | ⟨nan, nan'⟩
    · rfl
    · rw [lt, lt, nan, nan']
      simp
  · rw [lt, lt, nan, nan']
    simp

end UpToNaN

namespace UpToPayload

variable {x y : Binary64}

theorem upToNaN (alike : x.UpToPayload y) : x.UpToNaN y := by
  rcases alike with same | ⟨left, right, -⟩
  · exact .inl same
  · exact .inr ⟨left, right⟩

theorem isSignaling_eq (alike : x.UpToPayload y) : x.isSignaling = y.isSignaling := by
  rcases alike with rfl | ⟨-, -, class_eq⟩
  · rfl
  · exact class_eq

end UpToPayload

end Binary64

/-! ## Blind arithmetics -/

/-- The arithmetic sees no difference between numbers that `V` relates. -/
structure Arithmetic.BlindTo (A : Arithmetic) (V : Binary64 → Binary64 → Prop) : Prop where
  /-- Each operation takes related operands to related results. -/
  add : ∀ x x' y y', V x x' → V y y' → V (A.add x y) (A.add x' y')
  sub : ∀ x x' y y', V x x' → V y y' → V (A.sub x y) (A.sub x' y')
  mul : ∀ x x' y y', V x x' → V y y' → V (A.mul x y) (A.mul x' y')
  div : ∀ x x' y y', V x x' → V y y' → V (A.div x y) (A.div x' y')
  pow : ∀ x x' y y', V x x' → V y y' → V (A.pow x y) (A.pow x' y')
  /-- Each order gives one answer for related operands. -/
  lt : ∀ x x' y y', V x x' → V y y' → A.lt x y = A.lt x' y'
  gt : ∀ x x' y y', V x x' → V y y' → A.gt x y = A.gt x' y'

theorem Arithmetic.BlindTo.apply {A : Arithmetic} {V : Binary64 → Binary64 → Prop}
    (blind : A.BlindTo V) (op : Operator) {x x' y y' : Binary64} (left : V x x')
    (right : V y y') : V (op.apply x y) (op.apply x' y') := by
  cases op with
  | addition => exact blind.add x x' y y' left right
  | subtraction => exact blind.sub x x' y y' left right
  | multiplication => exact blind.mul x x' y y' left right
  | division => exact blind.div x x' y y' left right
  | exponentiation => exact blind.pow x x' y y' left right

theorem Arithmetic.BlindTo.holds {A : Arithmetic} {V : Binary64 → Binary64 → Prop}
    (blind : A.BlindTo V) (fine : ∀ x y, V x y → x.UpToNaN y) (op : Comparison)
    {x x' y y' : Binary64} (left : V x x') (right : V y y') :
    op.holds x y = op.holds x' y' := by
  cases op with
  | equals => exact (fine x x' left).same_eq (fine y y' right)
  | lessThan => exact blind.lt x x' y y' left right
  | greaterThan => exact blind.gt x x' y y' left right

/-- The language's own arithmetic tells no more of a NaN than whether it is quiet. -/
theorem Binary64.arithmetic_blindTo : Binary64.arithmetic.BlindTo UpToPayload := by
  have toFloat : ∀ {x y : Binary64}, x.UpToPayload y → x.toFloat = y.toFloat :=
    fun alike => alike.upToNaN.toFloat_eq
  constructor
  case add | sub | mul | div =>
    intro x x' y y' left right
    refine .inl (congrArg ofFloat ?_)
    rw [toFloat left, toFloat right]
  case pow =>
    intro x x' y y' left right
    refine .inl ?_
    show Binary64.pow x y = Binary64.pow x' y'
    rw [Binary64.pow, Binary64.pow, left.isSignaling_eq, right.isSignaling_eq, toFloat left,
      toFloat right]
  case lt =>
    intro x x' y y' left right
    exact left.upToNaN.lt_eq right.upToNaN
  case gt =>
    intro x x' y y' left right
    exact right.upToNaN.lt_eq left.upToNaN

/-- The arithmetic that takes every NaN for the canonical one. -/
@[reducible] def Arithmetic.canonicalized (A : Arithmetic) : Arithmetic where
  add x y := A.add x.canonical y.canonical
  sub x y := A.sub x.canonical y.canonical
  mul x y := A.mul x.canonical y.canonical
  div x y := A.div x.canonical y.canonical
  pow x y := A.pow x.canonical y.canonical
  lt x y := A.lt x.canonical y.canonical
  gt x y := A.gt x.canonical y.canonical

theorem Arithmetic.canonicalized_blindTo (A : Arithmetic) :
    A.canonicalized.BlindTo Binary64.UpToNaN := by
  have operation : ∀ (f : Binary64 → Binary64 → Binary64) (x x' y y' : Binary64),
      x.UpToNaN x' → y.UpToNaN y' →
      (f x.canonical y.canonical).UpToNaN (f x'.canonical y'.canonical) := by
    intro f x x' y y' left right
    rw [left.canonical_eq, right.canonical_eq]
    exact .inl rfl
  have order : ∀ (p : Binary64 → Binary64 → Bool) (x x' y y' : Binary64),
      x.UpToNaN x' → y.UpToNaN y' →
      p x.canonical y.canonical = p x'.canonical y'.canonical := by
    intro p x x' y y' left right
    rw [left.canonical_eq, right.canonical_eq]
  exact ⟨operation A.add, operation A.sub, operation A.mul, operation A.div, operation A.pow,
    order A.lt, order A.gt⟩

/-! ## Related dialogues -/

section

variable {V : Binary64 → Binary64 → Prop}

/-- Events of the same kind, name and branch with related values. -/
inductive Event.Alike (V : Binary64 → Binary64 → Prop) : Event → Event → Prop where
  | assign {name : String} {x x' : Binary64} :
    V x x' → Alike V (.assign name x) (.assign name x')
  | conditional {op : Comparison} {x x' y y' : Binary64} {holds : Bool} :
    V x x' → V y y' → Alike V (.conditional op x y holds) (.conditional op x' y' holds)

/-- Accesses to the same name with related values. -/
inductive Access.Alike (V : Binary64 → Binary64 → Prop) : Access → Access → Prop where
  | get {name : String} {value value' : Option Binary64} :
    Option.Rel V value value' → Alike V (.get name value) (.get name value')
  | set {name : String} {x x' : Binary64} : V x x' → Alike V (.set name x) (.set name x')

/-- Environments that bind the same names to related values. -/
def Environment.Alike (V : Binary64 → Binary64 → Prop) (e e' : Environment) : Prop :=
  ∀ name, Option.Rel V (e.get? name) (e'.get? name)

theorem Environment.Alike.set {e e' : Environment} (alike : e.Alike V e') (name : String)
    {x x' : Binary64} (values : V x x') : (e.set name x).Alike V (e'.set name x') := by
  intro other
  rw [get?_set, get?_set]
  split
  · exact .some values
  · exact alike other

namespace Dialogue

/-- Dialogues that ask and tell the same names, and stay related when they are answered
by related values. -/
inductive Alike (V : Binary64 → Binary64 → Prop) {α : Type} (R : α → α → Prop) :
    Dialogue α → Dialogue α → Prop where
  | done {a a' : α} : R a a' → Alike V R (.done a) (.done a')
  | ask {name : String} {next next' : Binary64 → Dialogue α} :
    (∀ x x', V x x' → Alike V R (next x) (next' x')) →
    Alike V R (.ask name next) (.ask name next')
  | tell {name : String} {x x' : Binary64} {next next' : Dialogue α} :
    V x x' → Alike V R next next' → Alike V R (.tell name x next) (.tell name x' next')
  | report {event event' : Event} {next next' : Dialogue α} :
    event.Alike V event' → Alike V R next next' →
    Alike V R (.report event next) (.report event' next')

theorem Alike.bind {α β : Type} {R : α → α → Prop} {S : β → β → Prop} {d d' : Dialogue α}
    {more more' : α → Dialogue β} (alike : Alike V R d d')
    (later : ∀ a a', R a a' → Alike V S (more a) (more' a')) :
    Alike V S (d.bind more) (d'.bind more') := by
  induction alike with
  | done results => exact later _ _ results
  | ask _ ih => exact .ask ih
  | tell values _ ih => exact .tell values ih
  | report events _ ih => exact .report events ih

/-- Related dialogues with related environments. -/
theorem Alike.hold {α : Type} {d d' : Dialogue α} (alike : Alike V Eq d d') {e e' : Environment}
    (start : e.Alike V e') :
    (d.hold e).answer = (d'.hold e').answer ∧
      List.Forall₂ (Event.Alike V) (d.hold e).events (d'.hold e').events ∧
      List.Forall₂ (Access.Alike V) (d.transcript e) (d'.transcript e') ∧
      (d.hold e).state.Alike V (d'.hold e').state := by
  induction alike generalizing e e' with
  | done results => exact ⟨congrArg Except.ok results, .nil, .nil, start⟩
  | @ask name next next' _ ih =>
    have values := start name
    simp only [Dialogue.hold, Dialogue.transcript]
    generalize bound : e.get? name = value, bound' : e'.get? name = value' at values
    cases values with
    | none =>
      rw [Environment.read_of_none bound, Environment.read_of_none bound']
      exact ⟨rfl, .nil, .cons (.get .none) .nil, start⟩
    | @some x x' values =>
      rw [Environment.read_of_some bound, Environment.read_of_some bound']
      obtain ⟨answer, events, accesses, final⟩ := ih x x' values start
      exact ⟨answer, events, .cons (.get (.some values)) accesses, final⟩
  | @tell name x x' next next' values _ ih =>
    obtain ⟨answer, events, accesses, final⟩ := ih (start.set name values)
    exact ⟨answer, events, .cons (.set values) accesses, final⟩
  | report event _ ih =>
    obtain ⟨answer, events, accesses, final⟩ := ih start
    exact ⟨answer, .cons event events, accesses, final⟩

end Dialogue

/-! ## The dialogues of trees -/

variable [A : Arithmetic]

theorem Expr.dialogue_alike (blind : A.BlindTo V) (refl : ∀ x, V x x) (e : Expr) :
    Dialogue.Alike V V e.dialogue e.dialogue := by
  induction e with
  | const c => exact .done (refl c.value)
  | var v => exact .ask fun x x' values => .done values
  | binary op l r ihl ihr =>
    refine ihl.bind fun x x' left => ihr.bind fun y y' right => ?_
    exact .done (blind.apply op left right)

theorem Stmt.dialogueList_alike (ss : List Stmt)
    (each : ∀ s ∈ ss, Dialogue.Alike V Eq s.dialogue s.dialogue) :
    Dialogue.Alike V Eq (Stmt.dialogueList ss) (Stmt.dialogueList ss) := by
  induction ss with
  | nil => exact .done rfl
  | cons s ss ih =>
    obtain ⟨first, later⟩ := List.forall_mem_cons.mp each
    exact first.bind fun _ _ _ => ih later

/-- Related values make a statement take the same branches. -/
theorem Stmt.dialogue_alike (blind : A.BlindTo V) (refl : ∀ x, V x x)
    (fine : ∀ x y, V x y → x.UpToNaN y) (s : Stmt) :
    Dialogue.Alike V Eq s.dialogue s.dialogue := by
  induction s using Stmt.nestedInduction with
  | assign x e =>
    refine (e.dialogue_alike blind refl).bind fun v v' values => ?_
    exact .report (.assign values) (.tell values (.done rfl))
  | block ss ih => exact Stmt.dialogueList_alike ss ih
  | conditional op l r t f iht ihf =>
    refine (l.dialogue_alike blind refl).bind fun x x' left => ?_
    refine (r.dialogue_alike blind refl).bind fun y y' right => ?_
    rw [blind.holds fine op left right]
    refine .report (.conditional left right) ?_
    split
    · exact iht
    · cases f with
      | none => exact .done rfl
      | some f => exact ihf f rfl

end

/-! ## Runs -/

/-- Two runs of a statement that differ only as `V` allows. -/
structure RunsAlike (A : Arithmetic) (V : Binary64 → Binary64 → Prop) (s : Stmt)
    (e e' : Environment) : Prop where
  /-- Both succeed, or both fail for the same reason. -/
  result : (s.run e).result = (s.run e').result
  /-- The same assignments and the same branches, in the same order. -/
  events : List.Forall₂ (Event.Alike V) (s.run e).events (s.run e').events
  /-- The same names are read and written, in the same order. -/
  accesses : List.Forall₂ (Access.Alike V) (s.run (Journal.start e)).state.accesses
    (s.run (Journal.start e')).state.accesses
  /-- The same names are bound in the end. -/
  final : (s.run e).state.Alike V (s.run e').state

theorem runsAlike_of_blindTo {A : Arithmetic} {V : Binary64 → Binary64 → Prop}
    (blind : A.BlindTo V) (refl : ∀ x, V x x) (fine : ∀ x y, V x y → x.UpToNaN y) (s : Stmt)
    {e e' : Environment} (start : e.Alike V e') : RunsAlike A V s e e' := by
  obtain ⟨answer, events, accesses, final⟩ := (s.dialogue_alike blind refl fine).hold start
  constructor
  · rw [s.run_eq_hold, s.run_eq_hold]
    exact answer
  · rw [s.run_eq_hold, s.run_eq_hold]
    exact events
  · rw [s.accesses_run_journal, s.accesses_run_journal]
    exact accesses
  · rw [s.run_eq_hold, s.run_eq_hold]
    exact final

/-- The choice of NaN never influences a run, under any arithmetic that does not tell
NaNs apart.  That of the language tells quiet from signaling ones and no more, so there
it is the sign and the rest of the payload that have no influence. -/
theorem runsAlike_upToNaN :
    (∀ A : Arithmetic, A.BlindTo Binary64.UpToNaN →
      ∀ (s : Stmt) (e e' : Environment), e.Alike Binary64.UpToNaN e' →
        RunsAlike A Binary64.UpToNaN s e e') ∧
    ∀ (s : Stmt) (e e' : Environment), e.Alike Binary64.UpToPayload e' →
      RunsAlike Binary64.arithmetic Binary64.UpToPayload s e e' := by
  constructor
  · intro A blind s e e' start
    exact runsAlike_of_blindTo blind (fun _ => .inl rfl) (fun _ _ alike => alike) s start
  · intro s e e' start
    exact runsAlike_of_blindTo Binary64.arithmetic_blindTo (fun _ => .inl rfl)
      (fun _ _ alike => alike.upToNaN) s start

/-- A negative signaling NaN in place of the canonical one, and under the arithmetic of
the language another quiet one.  The statement divides by it, compares it and copies it. -/
theorem runsAlike_upToNaN_otherNaN :
    let s : Stmt := .block [
      .assign ⟨"y"⟩ (.binary .division (.var ⟨"x"⟩) (.var ⟨"x"⟩)),
      .conditional .equals (.var ⟨"x"⟩) (.const (.ofNumber Binary64.nan))
        (.assign ⟨"z"⟩ (.var ⟨"x"⟩)) none]
    let e := Environment.empty.set "x" Binary64.nan
    let signaling := Environment.empty.set "x" ⟨0xfff0000000000001⟩
    let quiet := Environment.empty.set "x" ⟨0xfff8000000000001⟩
    RunsAlike Binary64.arithmetic.canonicalized Binary64.UpToNaN s e signaling ∧
      RunsAlike Binary64.arithmetic Binary64.UpToPayload s e quiet := by
  intro s e signaling quiet
  have unbound : ∀ V, Environment.empty.Alike V Environment.empty := by
    intro V name
    rw [Environment.get?_empty]
    exact .none
  constructor
  · refine runsAlike_upToNaN.1 _ Binary64.arithmetic.canonicalized_blindTo s e signaling ?_
    exact (unbound _).set "x" (.inr (by decide))
  · refine runsAlike_upToNaN.2 s e quiet ?_
    exact (unbound _).set "x" (.inr (by decide))

end Abacus
