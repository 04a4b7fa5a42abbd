import Abacus.Code.Style
import Abacus.Proofs.Code.Lexeme
import Abacus.Proofs.Number.Numeral

/-!
# The grammar of code

A reader for statements and expressions of the C family, with one function for
each rule of the grammar.

* A statement is an assignment, a block in braces, or a conditional.  An `else`
  belongs to the nearest `if` before it that has none yet.
* An expression is a chain of operands with binary operators between them.  The
  operators stand in levels, and those of a later level bind closer: equality,
  then the orders, then sum and difference, then product and quotient.  Within
  a level they group to the left.
* An operand is a minus sign in front of an operand, an expression in
  parentheses, a call of `pow`, a number or a name.

A number has a point or an exponent, since an integer literal would make the
arithmetic around it that of integers.  The words `NAN` and `INFINITY` are
numbers.

Each function gives the lexemes that it leaves with the proof that they are
fewer (`Rest`), so the readers call each other without a bound on their depth.

What the family leaves open is a `Dialect`: the token for equality, and the words
that are no names.  In `Dialect.c` they are those of the language.
-/

namespace Abacus

/-! ## Trees -/

/-- What stands between two operands. -/
inductive Connective where
  /-- An operation on numbers. -/
  | operation (op : Operator)
  /-- A comparison of numbers. -/
  | comparison (op : Comparison)
  deriving DecidableEq

/-- An expression as it is read. -/
inductive CodeExpr where
  | number (value : Binary64)
  | name (text : String)
  | negation (operand : CodeExpr)
  | binary (op : Connective) (lhs rhs : CodeExpr)
  deriving DecidableEq

/-- A statement as it is read. -/
inductive CodeStmt where
  | assign (target : String) (value : CodeExpr)
  | block (statements : List CodeStmt)
  | conditional (condition : CodeExpr) (ifTrue : CodeStmt) (ifFalse : Option CodeStmt)

/-! ## Words and marks -/

/-- A variant of the language. -/
structure Dialect where
  /-- The token for equality. -/
  equals : EqualsToken
  /-- The words that are no names, besides those for numbers. -/
  reserved : List String

/-- The language itself. -/
def Dialect.c : Dialect := ⟨.equality, ["if", "else", "pow"]⟩

/-- The words for numbers. -/
def numberWords : List String := ["NAN", "INFINITY"]

/-- Binary operators that bind equally close. -/
abbrev Level := List (Lexeme × Connective)

/-- The binary operators, those that bind closer later. -/
def EqualsToken.levels (equals : EqualsToken) : List Level :=
  [[(equals.text.toList, .comparison .equals)],
    [(['<'], .comparison .lessThan), (['>'], .comparison .greaterThan)],
    [(['+'], .operation .addition), (['-'], .operation .subtraction)],
    [(['*'], .operation .multiplication), (['/'], .operation .division)]]

namespace Dialect

/-- Whether a lexeme is the name of a variable. -/
def isName (d : Dialect) (t : Lexeme) : Bool :=
  isIdentifier t && !(d.reserved ++ numberWords).contains (String.ofList t)

/-- Reads a number or a name. -/
def atom (d : Dialect) (t : Lexeme) : Option CodeExpr :=
  if t = "NAN".toList then some (.number .nan)
  else if t = "INFINITY".toList then some (.number (.ofMagnitude false Binary64.infinityMagnitude))
  else if d.isName t then some (.name (String.ofList t))
  else (readLiteral t).map fun x => .number (x.nearest false)

end Dialect

/-! ## Reading -/

/-- What is left of some lexemes after at least one was read. -/
abbrev Rest (ts : List Lexeme) := { rest : List Lexeme // rest.length < ts.length }

namespace Rest

/-- The lexemes behind the first one. -/
def tail (t : Lexeme) (ts : List Lexeme) : Rest (t :: ts) := ⟨ts, Nat.lt_succ_self _⟩

/-- Reading goes on with what is left. -/
def andThen {ts : List Lexeme} (r : Rest ts) (next : Rest r.val) : Rest ts :=
  ⟨next.val, Nat.lt_trans next.property r.property⟩

end Rest

/-- Reads one given lexeme. -/
def expect (t : Lexeme) : (ts : List Lexeme) → Option (Rest ts)
  | [] => none
  | u :: us => if u = t then some (.tail u us) else none

namespace Dialect

mutual

/-- Reads an operand. -/
def operand (d : Dialect) : (ts : List Lexeme) → Option (CodeExpr × Rest ts)
  | [] => none
  | t :: ts =>
    if t = ['-'] then do
      let (e, r) ← d.operand ts
      some (.negation e, (Rest.tail t ts).andThen r)
    else if t = ['('] then do
      let (e, r) ← d.expression d.equals.levels ts
      let close ← expect [')'] r.val
      some (e, ((Rest.tail t ts).andThen r).andThen close)
    else if t = "pow".toList ∧ ts.head? = some ['('] then do
      let opened ← expect ['('] ts
      let (x, r) ← d.expression d.equals.levels opened.val
      let comma ← expect [','] r.val
      let (y, r') ← d.expression d.equals.levels comma.val
      let close ← expect [')'] r'.val
      some (.binary (.operation .exponentiation) x y,
        (Rest.tail t ts).andThen (opened.andThen (r.andThen (comma.andThen (r'.andThen close)))))
    else (d.atom t).map fun e => (e, .tail t ts)
termination_by ts => (ts.length, 0)
decreasing_by
  all_goals simp_wf
  all_goals grind

/-- Reads operands with operators of the given levels between them. -/
def expression (d : Dialect) : List Level → (ts : List Lexeme) → Option (CodeExpr × Rest ts)
  | [], ts => d.operand ts
  | level :: levels, ts => do
    let (e, r) ← d.expression levels ts
    let (e, more) ← d.chain level levels e r.val
    some (e, ⟨more.val, Nat.lt_of_le_of_lt more.property r.property⟩)
termination_by levels ts => (ts.length, levels.length + 1)

/-- Goes on behind a left operand as long as there are operators of a level. -/
def chain (d : Dialect) (level : Level) (levels : List Level) (e : CodeExpr) :
    (ts : List Lexeme) → Option (CodeExpr × { rest : List Lexeme // rest.length ≤ ts.length })
  | [] => some (e, ⟨[], Nat.le_refl _⟩)
  | t :: ts =>
    match level.lookup t with
    | none => some (e, ⟨t :: ts, Nat.le_refl _⟩)
    | some op => do
      let (rhs, r) ← d.expression levels ts
      let (e, more) ← d.chain level levels (.binary op e rhs) r.val
      some (e, ⟨more.val, by grind⟩)
termination_by ts => (ts.length, 0)

end

mutual

/-- Reads a statement. -/
def statement (d : Dialect) : (ts : List Lexeme) → Option (CodeStmt × Rest ts)
  | [] => none
  | t :: ts =>
    if t = ['{'] then do
      let (ss, r) ← d.body ts
      some (.block ss, (Rest.tail t ts).andThen r)
    else if t = "if".toList ∧ ts.head? = some ['('] then do
      let opened ← expect ['('] ts
      let (condition, r) ← d.expression d.equals.levels opened.val
      let close ← expect [')'] r.val
      let (ifTrue, r') ← d.statement close.val
      let before := (Rest.tail t ts).andThen (opened.andThen (r.andThen (close.andThen r')))
      match expect "else".toList r'.val with
      | none => some (.conditional condition ifTrue none, before)
      | some other => do
        let (ifFalse, r'') ← d.statement other.val
        some (.conditional condition ifTrue (some ifFalse), before.andThen (other.andThen r''))
    else if d.isName t then do
      let equals ← expect ['='] ts
      let (e, r) ← d.expression d.equals.levels equals.val
      let stop ← expect [';'] r.val
      some (.assign (String.ofList t) e,
        (Rest.tail t ts).andThen (equals.andThen (r.andThen stop)))
    else none
termination_by ts => (ts.length, 0)
decreasing_by
  all_goals simp_wf
  all_goals grind

/-- Reads statements up to a closing brace. -/
def body (d : Dialect) : (ts : List Lexeme) → Option (List CodeStmt × Rest ts)
  | [] => none
  | t :: ts =>
    if t = ['}'] then some ([], .tail t ts)
    else do
      let (s, r) ← d.statement (t :: ts)
      let (ss, r') ← d.body r.val
      some (s :: ss, r.andThen r')
termination_by ts => (ts.length, 1)
decreasing_by
  all_goals simp_wf
  all_goals grind

end

/-- Reads a text that is a single statement. -/
def parse (d : Dialect) (text : String) : Option CodeStmt :=
  match d.statement (lex text.toList) with
  | some (s, ⟨[], _⟩) => some s
  | _ => none

end Dialect

end Abacus
