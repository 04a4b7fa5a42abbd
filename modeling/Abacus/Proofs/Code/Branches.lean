import Abacus.Proofs.Code.Meaning
import Abacus.Proofs.Eval.NaN
import Abacus.Proofs.Number.Order

/-!
# Which branches code takes

The comparisons of the language and those of its code are not the same.  The token
`==` compares as IEEE numbers, so NaN differs from itself and the two zeros are equal.
The language compares constants: NaN equals NaN and the two zeros differ.  The orders
agree.  So an equality of two NaNs, or of two zeros of opposite sign, is *contested*,
and nothing else is (`Comparison.ieee_eq_holds_iff`).

Code is executed here with the comparisons of IEEE numbers.  So it takes the branches
that the statement takes, up to the first contested comparison, and there it takes the
other one.
-/

namespace Abacus

/-! ## Comparisons -/

/-- The comparison that a token makes in code. -/
def tokenTest : String → Option (Binary64 → Binary64 → Bool)
  | "==" => some Binary64.ieeeEq
  | "<" => some Binary64.lt
  | ">" => some fun x y => y.lt x
  | _ => none

/-- Whether a comparison holds in code. -/
def Comparison.ieee : Comparison → Binary64 → Binary64 → Bool
  | .equals, x, y => x.ieeeEq y
  | .lessThan, x, y => x.lt y
  | .greaterThan, x, y => y.lt x

/-- The comparisons on which the language and its code do not agree. -/
def Comparison.Contested (op : Comparison) (x y : Binary64) : Prop :=
  op = .equals ∧ (x.isNaN = true ∧ y.isNaN = true ∨ x.OppositeZeros y)

/-- The event of a contested comparison. -/
def Event.Contested : Event → Prop
  | .assign _ _ => False
  | .conditional op x y _ => op.Contested x y

theorem CodeStyle.tokenTest_token {style : CodeStyle} (equality : style.equals = .equality)
    (op : Comparison) : tokenTest (style.token op) = some op.ieee := by
  cases op with
  | equals =>
    rw [CodeStyle.token, equality]
    rfl
  | lessThan => rfl
  | greaterThan => rfl

namespace Binary64

variable {x y : Binary64}

theorem ieeeEq_iff : x.ieeeEq y = true ↔
    x.isNaN = false ∧ y.isNaN = false ∧ (x = y ∨ x.OppositeZeros y) := by
  rw [ieeeEq, Bool.and_eq_true, Bool.and_eq_true, Bool.not_eq_true', Bool.not_eq_true',
    decide_eq_true_iff, position_eq_iff, and_assoc]

/-- The equality of constants is that of IEEE numbers, except for NaNs and zeros. -/
theorem ieeeEq_eq_same_iff :
    x.ieeeEq y = x.same y ↔ ¬ (x.isNaN = true ∧ y.isNaN = true ∨ x.OppositeZeros y) := by
  rw [Bool.eq_iff_iff, ieeeEq_iff, ← UpToNaN.iff_same, UpToNaN]
  constructor
  · rintro alike (⟨left, right⟩ | zeros)
    · have regular := (alike.mpr (.inr ⟨left, right⟩)).1
      rw [left] at regular
      contradiction
    · obtain ⟨left, right⟩ := zeros.not_isNaN
      rcases alike.mp ⟨left, right, .inr zeros⟩ with equal | ⟨nan, -⟩
      · exact zeros.ne equal
      · rw [left] at nan
        contradiction
  · intro regular
    rw [not_or, not_and] at regular
    obtain ⟨number, nonzero⟩ := regular
    constructor
    · rintro ⟨-, -, equal | zeros⟩
      · exact .inl equal
      · exact absurd zeros nonzero
    · rintro (rfl | ⟨left, right⟩)
      · have regular : x.isNaN = false := by
          by_contra nan
          rw [Bool.not_eq_false] at nan
          exact number nan nan
        exact ⟨regular, regular, .inl rfl⟩
      · exact absurd right (number left)

end Binary64

/-- The language and its code agree on a comparison exactly if it is not contested. -/
theorem Comparison.ieee_eq_holds_iff (op : Comparison) (x y : Binary64) :
    op.ieee x y = op.holds x y ↔ ¬ op.Contested x y := by
  cases op with
  | equals =>
    show x.ieeeEq y = x.same y ↔ _
    rw [Binary64.ieeeEq_eq_same_iff, Comparison.Contested, eq_self, true_and]
  | lessThan =>
    refine iff_of_true rfl ?_
    rintro ⟨equals, -⟩
    cases equals
  | greaterThan =>
    refine iff_of_true rfl ?_
    rintro ⟨equals, -⟩
    cases equals

/-- Equality of the two zeros, and of NaN with itself. -/
theorem token_contradicts_holds :
    tokenTest (CodeStyle.token ⟨"    ", .equality⟩ .equals) = some Binary64.ieeeEq ∧
      Binary64.ieeeEq ⟨0⟩ ⟨0x8000000000000000⟩ = true ∧
      Comparison.holds .equals ⟨0⟩ ⟨0x8000000000000000⟩ = false ∧
      Binary64.ieeeEq .nan .nan = false ∧ Comparison.holds .equals .nan .nan = true := by
  refine ⟨rfl, ?_, ?_, ?_, ?_⟩ <;> decide

/-! ## Programs -/

theorem Event.passes_ieee_iff (event : Event) :
    event.Passes Comparison.ieee ↔ ¬ event.Contested := by
  cases event with
  | assign name value => exact iff_of_true trivial id
  | conditional op x y holds => exact op.ieee_eq_holds_iff x y

/-- A run takes the branch of the comparison in code exactly if that is not contested. -/
theorem Stmt.run_conditional_ieee_iff {σ : Type} [Context σ] {op : Comparison} {l r : Expr}
    (t : Stmt) (f : Option Stmt) {start next last : σ} {x y : Binary64}
    (left : l.evaluate start = (.ok x, next)) (right : r.evaluate next = (.ok y, last)) :
    (Stmt.conditional op l r t f).run start =
        (runAll (selected (op.ieee x y) t f) last).after [.conditional op x y (op.ieee x y)] ↔
      ¬ op.Contested x y := by
  rw [← op.ieee_eq_holds_iff, Stmt.run_conditional, left]
  simp only
  rw [right]
  simp only
  constructor
  · intro same
    have events := congrArg Outcome.events same
    injection events with event
    injection event with _ _ _ holds
    exact holds.symm
  · intro agree
    rw [agree]

/-- Where code agrees with the language, when its comparisons are those of IEEE numbers. -/
structure AgreesUnlessContested (style : CodeStyle) : Prop where
  /-- The token for a comparison decides it as the language does, unless it is contested. -/
  token (op : Comparison) : tokenTest (style.token op) = some op.ieee ∧
    ∀ x y, op.ieee x y = op.holds x y ↔ ¬ op.Contested x y
  /-- In the code of a conditional that token stands between the operands, and the run takes
  the branch that it decides on, unless the comparison is contested. -/
  conditional (op : Comparison) (l r : Expr) (t : Stmt) (f : Option Stmt) :
    (∃ rest, ((Stmt.conditional op l r t f).code style).toList = "if (".toList ++
      ((l.code style).toList ++ ((" " ++ style.token op ++ " ").toList ++
        ((r.code style).toList ++ rest)))) ∧
    ∀ (σ : Type) [Context σ] (start next last : σ) (x y : Binary64),
      l.evaluate start = (.ok x, next) → r.evaluate next = (.ok y, last) →
      ((Stmt.conditional op l r t f).run start =
          (runAll (selected (op.ieee x y) t f) last).after [.conditional op x y (op.ieee x y)] ↔
        ¬ op.Contested x y)
  /-- The code of a statement is a program that takes the same branches and ends alike, or
  there is a first contested comparison, up to which it takes the same branches, and there it
  takes the other one. -/
  program (s : Stmt) : (∀ c ∈ style.indent.toList, c = ' ' ∨ c = '\t') →
    (∀ name ∈ s.names,
      isIdentifier name.toList = true ∧ name ∉ ["if", "else", "pow", "NAN", "INFINITY"]) →
    ∃ program, Dialect.c.parse (s.code style) = some program ∧
      ∀ (σ : Type) [Context σ] (start : σ),
        (∀ event ∈ (s.run start).events, ¬ event.Contested) ∧
          program.follow Comparison.ieee start = (s.run start).course ∨
        ∃ before op x y holds later,
          (s.run start).events = before ++ .conditional op x y holds :: later ∧
          (∀ event ∈ before, ¬ event.Contested) ∧ op.Contested x y ∧
          Event.branches before ++ [!holds] <+: (program.follow Comparison.ieee start).branches

theorem agreesUnlessContested_of_equality (style : CodeStyle)
    (equality : style.equals = .equality) : AgreesUnlessContested style where
  token op := ⟨style.tokenTest_token equality op, op.ieee_eq_holds_iff⟩
  conditional op l r t f := by
    refine ⟨⟨_, Stmt.code_conditional style op l r t f⟩, ?_⟩
    intro σ _ start next last x y left right
    exact Stmt.run_conditional_ieee_iff t f left right
  program s blank names := by
    refine ⟨s.parsed, Stmt.parse_code_eq equality blank names, ?_⟩
    intro σ _ start
    cases s.parallel_parsed Comparison.ieee start with
    | together pass same =>
      exact .inl ⟨fun event here => event.passes_ieee_iff.mp (pass event here), same⟩
    | apart before later op x y events pass differs branches =>
      have other : op.ieee x y = !op.holds x y := Bool.eq_not.mpr differs
      refine .inr ⟨before, op, x, y, op.holds x y, later, events, ?_, ?_, ?_⟩
      · intro event here
        exact event.passes_ieee_iff.mp (pass event here)
      · rw [ne_eq, op.ieee_eq_holds_iff, not_not] at differs
        exact differs
      · rw [← other]
        exact branches

/-- The positive zero is compared with the negative one.  The run goes on with the else part
and the code does not. -/
theorem agreesUnlessContested_of_equality_zeros :
    let style : CodeStyle := ⟨"\t ", .equality⟩
    let negative : Constant := .ofNumber ⟨0x8000000000000000⟩
    let s : Stmt := .conditional .equals (.var ⟨"x"⟩) (.const negative)
      (.assign ⟨"y"⟩ (.var ⟨"x"⟩)) (some (.assign ⟨"z"⟩ (.var ⟨"x"⟩)))
    let start := Environment.empty.set "x" .zero
    (s.run start).events = [.conditional .equals .zero negative.value false, .assign "z" .zero] ∧
      ∃ program, Dialect.c.parse (s.code style) = some program ∧
        [true] <+: (program.follow Comparison.ieee start).branches := by
  intro style negative s start
  have different : Binary64.same .zero negative.value = false := by decide
  have events : (s.run start).events =
      [.conditional .equals .zero negative.value false, .assign "z" .zero] := by
    rw [s.run_eq_hold]
    simp [s, start, Stmt.dialogue, Stmt.dialogueOption, Expr.dialogue, Dialogue.bind,
      Dialogue.hold, Held.outcome, Context.read, Context.write, Comparison.holds, different]
  have contested : Comparison.Contested .equals .zero negative.value :=
    ⟨rfl, .inr ⟨by decide, by decide, by decide⟩⟩
  obtain ⟨program, read, follows⟩ :=
    (agreesUnlessContested_of_equality style rfl).program s (by simp [style]) (by decide)
  refine ⟨events, program, read, ?_⟩
  have course := follows Environment start
  rw [events] at course
  rcases course with ⟨clear, -⟩ | ⟨before, op, x, y, holds, later, same, clear, -, branches⟩
  · exact absurd contested (clear _ (List.mem_cons_self ..))
  · cases before with
    | nil =>
      injection same with first
      injection first with _ _ _ holds
      rw [← holds] at branches
      exact branches
    | cons event before =>
      injection same with first
      rw [← first] at clear
      exact absurd contested (clear _ (List.mem_cons_self ..))

end Abacus
