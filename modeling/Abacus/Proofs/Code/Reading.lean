import Abacus.Proofs.Code.Grammar
import Abacus.Proofs.Code.Spelling
import Abacus.Proofs.Tree.Names

/-!
# Code is read back

Every expression of code is an operand: a number, a name, a call, or an
operation in parentheses.  So no operator around it can take a part of it, and
whatever follows is left alone (`operand_code`).  In the same way a statement
ends where its code ends (`statement_code`).  Its conditionals all have an else
part, so no later `else` can be theirs.

What code is read as is `Stmt.parsed`: the tree itself, except that a negative
constant is a minus sign in front of its absolute value, and that an absent else
part is an empty block.

The names of the tree have to be names of the dialect.  A dialect need not
reserve the words `if`, `else` and `pow` for this: in code, `if` and `pow` stand
in front of a parenthesis exactly where they are no names.
-/

namespace Abacus

/-! ## What code is read as -/

/-- What the code of a number is read as. -/
def Binary64.parsed (x : Binary64) : CodeExpr :=
  if x.isNaN then .number .nan
  else if x.isNegative then .negation (.number (.ofMagnitude false x.magnitude))
  else .number (.ofMagnitude false x.magnitude)

/-- What the code of an expression is read as. -/
def Expr.parsed : Expr → CodeExpr
  | .const c => c.value.parsed
  | .var v => .name v.name
  | .binary op l r => .binary (.operation op) l.parsed r.parsed

mutual

/-- What the code of a statement is read as. -/
def Stmt.parsed : Stmt → CodeStmt
  | .assign x e => .assign x.name e.parsed
  | .block ss => .block (Stmt.parsedList ss)
  | .conditional op l r t f =>
    .conditional (.binary (.comparison op) l.parsed r.parsed) t.parsed (some (Stmt.parsedElse f))

/-- What the code of the statements of a block is read as. -/
def Stmt.parsedList : List Stmt → List CodeStmt
  | [] => []
  | s :: ss => s.parsed :: Stmt.parsedList ss

/-- What the code of an else part is read as. -/
def Stmt.parsedElse : Option Stmt → CodeStmt
  | none => .block []
  | some s => s.parsed

end

namespace Dialect

variable (d : Dialect)

/-- A reader gives a tree and leaves the given rest. -/
def Reads {α : Type} {ts : List Lexeme} (answer : Option (α × Rest ts)) (tree : α)
    (rest : List Lexeme) : Prop :=
  ∃ shorter, answer = some (tree, ⟨rest, shorter⟩)

theorem Reads.unique {α : Type} {ts rest rest' : List Lexeme} {answer : Option (α × Rest ts)}
    {tree tree' : α} (read : Reads answer tree rest) (read' : Reads answer tree' rest') :
    tree = tree' := by
  obtain ⟨_, read⟩ := read
  obtain ⟨_, read'⟩ := read'
  cases read.symm.trans read'
  rfl

/-! ## Chains of operands -/

/-- No operator of the levels stands at the start. -/
def Stops (levels : List Level) (ts : List Lexeme) : Prop :=
  ∀ level ∈ levels, ∀ t ∈ ts.head?, level.lookup t = none

/-- Whether an operator belongs to one of the levels and to none after it. -/
def binds (t : Lexeme) (op : Connective) : List Level → Bool
  | [] => false
  | level :: levels =>
    (level.lookup t == some op && levels.all fun later => (later.lookup t).isNone) ||
      binds t op levels

theorem chain_of_stops (level : Level) (levels : List Level) (e : CodeExpr) (ts : List Lexeme)
    (stops : ∀ t ∈ ts.head?, level.lookup t = none) :
    d.chain level levels e ts = some (e, ⟨ts, Nat.le_refl _⟩) := by
  cases ts with
  | nil => rw [chain]
  | cons t ts => rw [chain, stops t rfl]

/-- An operand without an operator behind it is an expression. -/
theorem expression_of_operand {ts rest : List Lexeme} {e : CodeExpr}
    (read : Reads (d.operand ts) e rest) (levels : List Level) (stops : Stops levels rest) :
    Reads (d.expression levels ts) e rest := by
  induction levels with
  | nil =>
    rw [expression]
    exact read
  | cons level levels ih =>
    obtain ⟨shorter, first⟩ := ih fun later here => stops later (List.mem_cons_of_mem _ here)
    have last := d.chain_of_stops level levels e rest (stops level (List.mem_cons_self ..))
    refine ⟨shorter, ?_⟩
    simp [expression, first, last]

/-- Two operands with an operator between them and none behind them are an expression. -/
theorem expression_of_operands {t : Lexeme} {op : Connective} {x y : CodeExpr}
    {ts us rest : List Lexeme} (left : Reads (d.operand ts) x (t :: us))
    (right : Reads (d.operand us) y rest) (levels : List Level) (bound : binds t op levels = true)
    (stops : Stops levels rest) : Reads (d.expression levels ts) (.binary op x y) rest := by
  induction levels with
  | nil => cases bound
  | cons level levels ih =>
    have stopsLater : Stops levels rest := fun later here => stops later (List.mem_cons_of_mem _ here)
    have last := d.chain_of_stops level levels (.binary op x y) rest
      (stops level (List.mem_cons_self ..))
    rcases Bool.or_eq_true_iff.mp bound with here | later
    · -- the operator is of this level: the operands on both sides are read by the levels after it
      obtain ⟨found, others⟩ := Bool.and_eq_true_iff.mp here
      have lookup : level.lookup t = some op := beq_iff_eq.mp found
      have looser : Stops levels (t :: us) := by
        intro later there u begins
        cases begins
        exact Option.isNone_iff_eq_none.mp (List.all_eq_true.mp others later there)
      obtain ⟨shorter, first⟩ := d.expression_of_operand left levels looser
      obtain ⟨shorter', second⟩ := d.expression_of_operand right levels stopsLater
      refine ⟨Nat.lt_trans shorter' (Nat.lt_trans (Nat.lt_succ_self _) shorter), ?_⟩
      simp [expression, chain, first, lookup, second, last]
    · obtain ⟨shorter, whole⟩ := ih later stopsLater
      refine ⟨shorter, ?_⟩
      simp [expression, whole, last]

/-- No binary operator is a closing mark. -/
theorem stops_close (equals : EqualsToken) {t : Lexeme} (closes : t ∈ [[')'], [','], [';']])
    (ts : List Lexeme) : Stops equals.levels (t :: ts) := by
  have none_closes : ∀ u ∈ [[')'], [','], [';']], ∀ level ∈ equals.levels,
      level.lookup u = none := by
    cases equals <;> decide
  intro level here u begins
  cases begins
  exact none_closes t closes level here

/-! ## Operands -/

theorem expect_self (t : Lexeme) (ts : List Lexeme) :
    expect t (t :: ts) = some ⟨ts, Nat.lt_succ_self _⟩ :=
  if_pos rfl

theorem operand_parentheses {e : CodeExpr} {ts rest : List Lexeme}
    (inner : Reads (d.expression d.equals.levels ts) e ([')'] :: rest)) :
    Reads (d.operand (['('] :: ts)) e rest := by
  obtain ⟨shorter, inner⟩ := inner
  refine ⟨by simp only [List.length_cons] at shorter ⊢; omega, ?_⟩
  rw [operand, if_neg (by decide), if_pos rfl]
  simp only [expect_self, inner, Option.bind_eq_bind, Option.bind_some]
  rfl

theorem operand_call {x y : CodeExpr} {ts us rest : List Lexeme}
    (first : Reads (d.expression d.equals.levels ts) x ([','] :: us))
    (second : Reads (d.expression d.equals.levels us) y ([')'] :: rest)) :
    Reads (d.operand ("pow".toList :: ['('] :: ts)) (.binary (.operation .exponentiation) x y)
      rest := by
  obtain ⟨shorter, first⟩ := first
  obtain ⟨shorter', second⟩ := second
  refine ⟨by simp only [List.length_cons] at shorter shorter' ⊢; omega, ?_⟩
  rw [operand, if_neg (by decide), if_neg (by decide), if_pos ⟨rfl, rfl⟩]
  simp only [expect_self, first, second, Option.bind_eq_bind, Option.bind_some]
  rfl

/-- A number or a name is an operand, unless it is the word of a call. -/
theorem operand_of_atom {t : Lexeme} {e : CodeExpr} (read : d.atom t = some e) (ts : List Lexeme)
    (noCall : t = "pow".toList → ts.head? ≠ some ['(']) : Reads (d.operand (t :: ts)) e ts := by
  have marks : d.atom ['-'] = none ∧ d.atom ['('] = none := ⟨rfl, rfl⟩
  have minus : t ≠ ['-'] := by
    rintro rfl
    rw [marks.1] at read
    cases read
  have opens : t ≠ ['('] := by
    rintro rfl
    rw [marks.2] at read
    cases read
  refine ⟨Nat.lt_succ_self _, ?_⟩
  rw [operand, if_neg minus, if_neg opens, if_neg (not_and.mpr noCall), read]
  rfl

theorem operand_of_number {t : Lexeme} {x : Binary64} (read : d.atom t = some (.number x))
    (ts : List Lexeme) : Reads (d.operand (t :: ts)) (.number x) ts := by
  apply d.operand_of_atom read
  rintro rfl
  -- the word of a call is a name or nothing, but no number
  have literal : readLiteral "pow".toList = none := by decide
  have words : "pow".toList ≠ "NAN".toList ∧ "pow".toList ≠ "INFINITY".toList := by decide
  rw [atom, if_neg words.1, if_neg words.2, literal] at read
  split at read
  · cases read
  · cases read

/-! ## Numbers -/

theorem atom_numeral (n : Numeral) :
    d.atom n.chars = some (.number (n.decimal.nearest false)) := by
  obtain ⟨c, cs, begins⟩ := List.exists_cons_of_ne_nil n.whole.begins
  have digit : c.isDigit = true := n.whole.valid c (by simp [begins])
  have noName : isIdentifier n.chars = false := by
    rw [Numeral.chars, begins, List.cons_append, isIdentifier, not_letter_of_digit digit,
      Bool.false_and]
  have noWord : ∀ word : Lexeme, isIdentifier word = true → n.chars ≠ word := by
    rintro word identifier rfl
    rw [noName] at identifier
    cases identifier
  have name : d.isName n.chars = false := by simp [isName, noName]
  rw [atom, if_neg (noWord _ (by decide)), if_neg (noWord _ (by decide)), name,
    if_neg Bool.false_ne_true, n.readLiteral_chars]
  rfl

/-- The absolute value of a number is read as itself. -/
theorem atom_sizeLexeme (x : Binary64) (number : ¬x.isNaN = true) :
    d.atom x.sizeLexeme = some (.number (.ofMagnitude false x.magnitude)) := by
  unfold Binary64.sizeLexeme
  split
  next finite =>
    obtain ⟨n, chars, nearest⟩ := x.exists_numeral .code rfl finite
    rw [← chars, d.atom_numeral, nearest]
  next infinite =>
    rw [Binary64.magnitude_of_infinite (Bool.eq_false_of_not_eq_true number) infinite]
    rfl

theorem operand_text (x : Binary64) (rest : List Lexeme) :
    Reads (d.operand (lex (x.text .code).toList ++ rest)) x.parsed rest := by
  rw [Binary64.lex_text, Binary64.parsed]
  by_cases nan : x.isNaN = true
  · rw [if_pos nan, if_pos nan]
    have word : d.atom "NAN".toList = some (.number .nan) := rfl
    exact d.operand_of_number word rest
  · have size := d.operand_of_number (d.atom_sizeLexeme x nan) rest
    rw [if_neg nan, if_neg nan]
    by_cases negative : x.isNegative = true
    · obtain ⟨shorter, size⟩ := size
      rw [if_pos negative, if_pos negative]
      refine ⟨Nat.lt_succ_of_lt shorter, ?_⟩
      simp [operand, size, Rest.andThen]
    · rw [if_neg negative, if_neg negative]
      exact size

/-! ## Expressions -/

theorem lex_operator (op : Operator) (operation : op ≠ .exponentiation) :
    lex op.code.1.toList = [['(']] ∧ lex op.code.2.2.toList = [[')']] ∧
      ∃ t, lex op.code.2.1.toList = [t] ∧ t ≠ ['('] ∧
        ∀ equals : EqualsToken, binds t (.operation op) equals.levels = true := by
  cases op with
  | addition =>
    refine ⟨by decide, by decide, ['+'], by decide, by decide, fun equals => ?_⟩
    cases equals <;> decide
  | subtraction =>
    refine ⟨by decide, by decide, ['-'], by decide, by decide, fun equals => ?_⟩
    cases equals <;> decide
  | multiplication =>
    refine ⟨by decide, by decide, ['*'], by decide, by decide, fun equals => ?_⟩
    cases equals <;> decide
  | division =>
    refine ⟨by decide, by decide, ['/'], by decide, by decide, fun equals => ?_⟩
    cases equals <;> decide
  | exponentiation => exact absurd rfl operation

theorem isName_toList (name : String) : d.isName name.toList = true ↔
    isIdentifier name.toList = true ∧ name ∉ d.reserved ++ numberWords := by
  rw [isName, String.ofList_toList, Bool.and_eq_true]
  simp

/-- A name of the dialect is read as a name. -/
theorem atom_of_isName {name : String} (valid : d.isName name.toList = true) :
    d.atom name.toList = some (.name name) := by
  have noNumber : ∀ word ∈ numberWords, name.toList ≠ word.toList := by
    intro word here same
    have free := (d.isName_toList name).mp valid
    rw [String.toList_inj.mp same] at free
    exact free.2 (List.mem_append_right _ here)
  rw [atom, if_neg (noNumber "NAN" (by decide)), if_neg (noNumber "INFINITY" (by decide)),
    if_pos valid, String.ofList_toList]

/-- The code of an expression is an operand, whatever follows.  Behind the name
`pow` a parenthesis would be that of a call. -/
theorem operand_code (style : CodeStyle) (e : Expr)
    (names : ∀ name ∈ e.names, d.isName name.toList = true) (rest : List Lexeme)
    (noCall : rest.head? ≠ some ['(']) :
    Reads (d.operand (lex (e.code style).toList ++ rest)) e.parsed rest := by
  induction e generalizing rest with
  | const c =>
    rw [Expr.code_const]
    exact d.operand_text c.value rest
  | var v =>
    have name := names v.name (List.mem_singleton_self _)
    rw [Expr.lex_code_var style v ((d.isName_toList v.name).mp name).1]
    exact d.operand_of_atom (d.atom_of_isName name) rest fun _ => noCall
  | binary op l r ihl ihr =>
    obtain ⟨namesLeft, namesRight⟩ := Expr.forall_names_binary.mp names
    have close : Stops d.equals.levels ([')'] :: rest) := stops_close d.equals (by decide) rest
    have right := ihr namesRight ([')'] :: rest) (by simp)
    by_cases power : op = .exponentiation
    · subst power
      have marks : lex Operator.exponentiation.code.1.toList = ["pow".toList, ['(']] ∧
          lex Operator.exponentiation.code.2.1.toList = [[',']] ∧
          lex Operator.exponentiation.code.2.2.toList = [[')']] := by decide
      have left := ihl namesLeft ([','] :: (lex (r.code style).toList ++ [')'] :: rest)) (by simp)
      have call := d.operand_call
        (d.expression_of_operand left _ (stops_close d.equals (by decide) _))
        (d.expression_of_operand right _ close)
      have spelled : lex ((Expr.binary .exponentiation l r).code style).toList ++ rest =
          "pow".toList :: ['('] :: (lex (l.code style).toList ++
            [','] :: (lex (r.code style).toList ++ [')'] :: rest)) := by
        rw [Expr.lex_code_binary, marks.1, marks.2.1, marks.2.2]
        simp
      rw [spelled]
      exact call
    · obtain ⟨opens, closes, t, token, notOpen, bound⟩ := lex_operator op power
      have left := ihl namesLeft (t :: (lex (r.code style).toList ++ [')'] :: rest))
        (by simpa using notOpen)
      have whole := d.operand_parentheses
        (d.expression_of_operands left right _ (bound d.equals) close)
      have spelled : lex ((Expr.binary op l r).code style).toList ++ rest =
          ['('] :: (lex (l.code style).toList ++
            t :: (lex (r.code style).toList ++ [')'] :: rest)) := by
        rw [Expr.lex_code_binary, opens, closes, token]
        simp
      rw [spelled]
      exact whole

/-! ## Statements -/

theorem binds_comparison (style : CodeStyle) (op : Comparison) :
    (style.token op).toList ≠ ['('] ∧
      binds (style.token op).toList (.comparison op) style.equals.levels = true := by
  have unindented : style.token op = CodeStyle.token ⟨"", style.equals⟩ op := by cases op <;> rfl
  rw [unindented]
  cases style.equals <;> cases op <;> exact ⟨by decide, by decide⟩

theorem statement_assign {name : String} (valid : d.isName name.toList = true) {e : CodeExpr}
    {ts rest : List Lexeme} (value : Reads (d.expression d.equals.levels ts) e ([';'] :: rest)) :
    Reads (d.statement (name.toList :: ['='] :: ts)) (.assign name e) rest := by
  obtain ⟨shorter, value⟩ := value
  have brace : name.toList ≠ ['{'] := by
    intro same
    have identifier := ((d.isName_toList name).mp valid).1
    rw [same] at identifier
    cases identifier
  refine ⟨by simp only [List.length_cons] at shorter ⊢; omega, ?_⟩
  rw [statement, if_neg brace, if_neg (by simp), if_pos valid]
  simp only [expect_self, value, Option.bind_eq_bind, Option.bind_some, String.ofList_toList]
  rfl

theorem statement_block {ss : List CodeStmt} {ts rest : List Lexeme}
    (inner : Reads (d.body ts) ss rest) : Reads (d.statement (['{'] :: ts)) (.block ss) rest := by
  obtain ⟨shorter, inner⟩ := inner
  refine ⟨Nat.lt_succ_of_lt shorter, ?_⟩
  rw [statement, if_pos rfl, inner]
  rfl

theorem statement_conditional {condition : CodeExpr} {ifTrue ifFalse : CodeStmt}
    {ts us vs rest : List Lexeme}
    (test : Reads (d.expression d.equals.levels ts) condition ([')'] :: us))
    (first : Reads (d.statement us) ifTrue ("else".toList :: vs))
    (second : Reads (d.statement vs) ifFalse rest) :
    Reads (d.statement ("if".toList :: ['('] :: ts)) (.conditional condition ifTrue (some ifFalse))
      rest := by
  obtain ⟨shorter, test⟩ := test
  obtain ⟨shorter', first⟩ := first
  obtain ⟨shorter'', second⟩ := second
  refine ⟨by simp only [List.length_cons] at shorter shorter' ⊢; omega, ?_⟩
  rw [statement, if_neg (by decide), if_pos ⟨rfl, rfl⟩]
  simp only [expect_self, test, first, second, Option.bind_eq_bind, Option.bind_some]
  rfl

theorem body_nil (rest : List Lexeme) : Reads (d.body (['}'] :: rest)) [] rest := by
  refine ⟨Nat.lt_succ_self _, ?_⟩
  rw [body, if_pos rfl]
  rfl

/-- Statements are read one after the other.  None of them begins with a closing
brace, since nothing that begins so is a statement. -/
theorem body_cons {s : CodeStmt} {ss : List CodeStmt} {ts us rest : List Lexeme}
    (first : Reads (d.statement ts) s us) (others : Reads (d.body us) ss rest) :
    Reads (d.body ts) (s :: ss) rest := by
  obtain ⟨shorter, first⟩ := first
  obtain ⟨shorter', others⟩ := others
  refine ⟨Nat.lt_trans shorter' shorter, ?_⟩
  cases ts with
  | nil => cases shorter
  | cons t ts =>
    have open_ : t ≠ ['}'] := by
      rintro rfl
      have noName : d.isName ['}'] = false := rfl
      rw [statement, if_neg (by decide), if_neg (by simp), noName,
        if_neg Bool.false_ne_true] at first
      cases first
    rw [body, if_neg open_]
    simp [first, others, Rest.andThen]

theorem body_code (style : CodeStyle) (ss : List Stmt)
    (each : ∀ s ∈ ss, ∀ rest,
      Reads (d.statement (lex (s.code style).toList ++ rest)) s.parsed rest)
    (rest : List Lexeme) :
    Reads (d.body (ss.flatMap (fun s => lex (s.code style).toList) ++ ['}'] :: rest))
      (Stmt.parsedList ss) rest := by
  induction ss with
  | nil => exact d.body_nil rest
  | cons s ss ih =>
    have first := each s (List.mem_cons_self ..)
      (ss.flatMap (fun s => lex (s.code style).toList) ++ ['}'] :: rest)
    have others := ih fun t there => each t (List.mem_cons_of_mem _ there)
    rw [List.flatMap_cons, List.append_assoc]
    exact d.body_cons first others

theorem statement_elseCode (style : CodeStyle) (f : Option Stmt)
    (each : ∀ s ∈ f, ∀ rest,
      Reads (d.statement (lex (s.code style).toList ++ rest)) s.parsed rest)
    (rest : List Lexeme) :
    Reads (d.statement (lex (Stmt.elseCode style f).toList ++ rest)) (Stmt.parsedElse f) rest := by
  cases f with
  | none =>
    have braces : lex (Stmt.elseCode style none).toList = [['{'], ['}']] := by
      rw [Stmt.elseCode]
      decide
    rw [braces]
    exact d.statement_block (d.body_nil rest)
  | some f => exact each f rfl rest

/-- The code of a statement is a statement, whatever follows. -/
theorem statement_code (style : CodeStyle) (same : style.equals = d.equals)
    (blank : ∀ c ∈ style.indent.toList, isBlank c = true) (s : Stmt)
    (names : ∀ name ∈ s.names, d.isName name.toList = true) (rest : List Lexeme) :
    Reads (d.statement (lex (s.code style).toList ++ rest)) s.parsed rest := by
  induction s using Stmt.nestedInduction generalizing rest with
  | assign x e =>
    obtain ⟨target, value⟩ := Stmt.forall_names_assign.mp names
    have read := d.operand_code style e value ([';'] :: rest) (by simp)
    have whole := d.statement_assign target
      (d.expression_of_operand read _ (stops_close d.equals (by decide) rest))
    have spelled : lex ((Stmt.assign x e).code style).toList ++ rest =
        x.name.toList :: ['='] :: (lex (e.code style).toList ++ [';'] :: rest) := by
      rw [Stmt.lex_code_assign style x e ((d.isName_toList x.name).mp target).1]
      simp
    rw [spelled]
    exact whole
  | block ss ih =>
    have namesEach := Stmt.forall_names_block.mp names
    have inner := d.body_code style ss (fun s here => ih s here (namesEach s here)) rest
    have spelled : lex ((Stmt.block ss).code style).toList ++ rest =
        ['{'] :: (ss.flatMap (fun s => lex (s.code style).toList) ++ ['}'] :: rest) := by
      rw [Stmt.lex_code_block style blank]
      simp
    rw [spelled]
    exact d.statement_block inner
  | conditional op l r t f iht ihf =>
    obtain ⟨namesLeft, namesRight, namesTrue, namesFalse⟩ := Stmt.forall_names_conditional.mp names
    obtain ⟨noCall, bound⟩ := binds_comparison style op
    rw [same] at bound
    -- from the last part to the first, since each part is read up to what follows it
    have second := d.statement_elseCode style f (fun s here => ihf s here (namesFalse s here)) rest
    have first := iht namesTrue ("else".toList :: (lex (Stmt.elseCode style f).toList ++ rest))
    have right := d.operand_code style r namesRight ([')'] :: (lex (t.code style).toList ++
      "else".toList :: (lex (Stmt.elseCode style f).toList ++ rest))) (by simp)
    have left := d.operand_code style l namesLeft ((style.token op).toList ::
      (lex (r.code style).toList ++ [')'] :: (lex (t.code style).toList ++
        "else".toList :: (lex (Stmt.elseCode style f).toList ++ rest)))) (by simpa using noCall)
    have test := d.expression_of_operands left right _ bound (stops_close d.equals (by decide) _)
    have spelled : lex ((Stmt.conditional op l r t f).code style).toList ++ rest =
        "if".toList :: ['('] :: (lex (l.code style).toList ++ (style.token op).toList ::
          (lex (r.code style).toList ++ [')'] :: (lex (t.code style).toList ++
            "else".toList :: (lex (Stmt.elseCode style f).toList ++ rest)))) := by
      rw [Stmt.lex_code_conditional]
      simp
    rw [spelled]
    exact d.statement_conditional test first second

/-- The code of a statement is read back. -/
theorem parse_code (style : CodeStyle) (same : style.equals = d.equals)
    (blank : ∀ c ∈ style.indent.toList, isBlank c = true) (s : Stmt)
    (names : ∀ name ∈ s.names, d.isName name.toList = true) :
    d.parse (s.code style) = some s.parsed := by
  have read := d.statement_code style same blank s names []
  rw [List.append_nil] at read
  obtain ⟨shorter, read⟩ := read
  rw [parse, read]

end Dialect

end Abacus
