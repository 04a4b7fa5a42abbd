import Abacus.Proofs.Code.Lexeme
import Abacus.Proofs.Code.Text
import Abacus.Proofs.Number.Numeral

/-!
# The lexemes of code

Between the parts of a construct code always has a separator.  So the lexemes
of a tree are those of its parts with the words and marks of the construct
between them (`Expr.lex_code_binary`, `Stmt.lex_code_block` and the others), and
nothing is asked of the parts.  The indentation of a block leaves no trace,
provided it is made of blanks.

What is a single lexeme has to be seen at the leaves: a name if it is an
identifier, and a number behind its sign (`Binary64.lex_text`).  There a minus
sign meets a digit or a letter with nothing between them.
-/

namespace Abacus

/-! ## Numbers -/

theorem nameChar_of_digit {c : Char} (digit : c.isDigit = true) : isNameChar c = true := by
  rw [isNameChar, digit, Bool.or_true]

/-- A number goes on with digits, letters and points. -/
theorem lexFrom_number {d : Char} (digit : d.isDigit = true) (front cs rest : List Char)
    (plain : ∀ c ∈ cs, isNameChar c = true ∨ c = '.') :
    lexFrom (d :: front) (cs ++ rest) = lexFrom (d :: (front ++ cs)) rest := by
  apply lexFrom_append_of_continues
  · intro c here
    rcases plain c here with name | rfl
    · exact not_blank_of_nameChar name
    · rfl
  · intro c here more
    rw [List.cons_append, continues_of_digit digit, continuesNumber]
    rcases plain c here with name | rfl
    · rw [name, Bool.true_or, Bool.true_or]
    · rfl

/-- A number goes on with an exponent.  Its sign stands right behind the exponent mark. -/
theorem lexFrom_exponent {d : Char} (digit : d.isDigit = true) (front : List Char) (e : ℤ) :
    lexFrom (d :: front) ('e' :: (toString e).toList) =
      [d :: (front ++ 'e' :: (toString e).toList)] := by
  have mark : ∀ rest, lexFrom (d :: front) ('e' :: rest) = lexFrom (d :: (front ++ ['e'])) rest :=
    fun rest => lexFrom_number digit front ['e'] rest (List.forall_mem_singleton.mpr (.inl rfl))
  have digits : ∀ (m : ℕ) (front : List Char),
      lexFrom (d :: front) (Nat.toDigits 10 m) = [d :: (front ++ Nat.toDigits 10 m)] := by
    intro m front
    have all := lexFrom_number digit front (Nat.toDigits 10 m) [] fun c here =>
      .inl (nameChar_of_digit (Nat.isDigit_of_mem_toDigits (by decide) (by decide) here))
    rw [List.append_nil] at all
    rw [all]
    rfl
  rw [mark, Int.toString_eq_repr, Int.repr_eq_if]
  split
  · rw [Nat.toList_repr, digits]
    simp
  · have sign : continues (d :: (front ++ ['e'])) '-' = true := by
      have last : (d :: (front ++ ['e'])).getLast? = some 'e' := by
        rw [← List.cons_append, List.getLast?_concat]
      rw [continues_of_digit digit, continuesNumber, last]
      rfl
    have minus : ∀ rest, lexFrom (d :: (front ++ ['e'])) ('-' :: rest) =
        lexFrom (d :: (front ++ ['e'] ++ ['-'])) rest := by
      intro rest
      rw [lexFrom, if_neg (by decide), if_pos sign]
      rfl
    have signed : ∀ cs : List Char, "-".toList ++ cs = '-' :: cs := fun _ => rfl
    rw [String.toList_append, Nat.toList_repr, signed, minus, digits]
    simp

/-- A numeral is a single lexeme. -/
theorem Numeral.lex_chars (n : Numeral) : lex n.chars = [n.chars] := by
  obtain ⟨whole, fraction, exponent, real⟩ := n
  obtain ⟨d, ds, begins⟩ := List.exists_cons_of_ne_nil whole.begins
  have digits := whole.valid
  rw [begins] at digits
  have digit : d.isDigit = true := digits d (List.mem_cons_self ..)
  -- the digits and the point
  have plain : ∀ c ∈ ds ++ fractionChars ⟨whole, fraction, exponent, real⟩,
      isNameChar c = true ∨ c = '.' := by
    refine List.forall_mem_append.mpr ⟨?_, ?_⟩
    · intro c here
      exact .inl (nameChar_of_digit (digits c (List.mem_cons_of_mem _ here)))
    · cases fraction with
      | none => nofun
      | some f =>
        exact List.forall_mem_cons.mpr ⟨.inr rfl, fun c here => .inl (nameChar_of_digit (f.valid c here))⟩
  rw [chars, begins, List.cons_append, ← List.append_assoc,
    lex_cons _ _ (not_blank_of_nameChar (nameChar_of_digit digit)), lexFrom_number digit [] _ _ plain]
  cases exponent with
  | none =>
    have nothing : exponentChars ⟨whole, fraction, none, real⟩ = [] := rfl
    rw [nothing, List.append_nil]
    rfl
  | some e => exact lexFrom_exponent digit _ e

/-- A minus sign in front of a name or a number is a lexeme of its own. -/
theorem lex_minus (c : Char) (cs : List Char) (name : isNameChar c = true) :
    lex ('-' :: c :: cs) = ['-'] :: lex (c :: cs) := by
  have visible := not_blank_of_nameChar name
  have apart : continues ['-'] c = false := by
    have mark : ['-', c] ∉ longMarks := by
      intro here
      have other : c ∈ ['-', c] := by simp
      rw [(longMarks_chars here other).2] at name
      exact Bool.false_ne_true name
    have first : isLetter '-' = false ∧ isNumeric ['-'] = false := by decide
    simp [continues, first, mark]
  rw [lex_cons _ _ (by decide), lex_cons _ _ visible, lexFrom, visible, apart]
  simp [begun_cons]

/-- The word or numeral for the absolute value of a number that is not NaN. -/
def Binary64.sizeLexeme (x : Binary64) : Lexeme :=
  if x.isFinite then x.finiteChars .code else "INFINITY".toList

theorem Binary64.lex_sizeLexeme (x : Binary64) :
    lex x.sizeLexeme = [x.sizeLexeme] ∧ ∃ c cs, x.sizeLexeme = c :: cs ∧ isNameChar c = true := by
  unfold sizeLexeme
  split
  next finite =>
    obtain ⟨n, chars, -⟩ := x.exists_numeral .code rfl finite
    rw [← chars]
    refine ⟨n.lex_chars, ?_⟩
    obtain ⟨d, ds, begins⟩ := List.exists_cons_of_ne_nil n.whole.begins
    refine ⟨d, ds ++ (n.fractionChars ++ n.exponentChars), ?_, ?_⟩
    · rw [Numeral.chars, begins, List.cons_append]
    · exact nameChar_of_digit (n.whole.valid d (by simp [begins]))
  next =>
    exact ⟨by decide, 'I', "NFINITY".toList, rfl, rfl⟩

/-- A number is the word for NaN, or a sign and its absolute value. -/
theorem Binary64.lex_text (x : Binary64) :
    lex (x.text .code).toList =
      if x.isNaN then ["NAN".toList]
      else if x.isNegative then [['-'], x.sizeLexeme] else [x.sizeLexeme] := by
  obtain ⟨single, c, cs, begins, name⟩ := x.lex_sizeLexeme
  have size : (if x.isFinite then String.ofList (x.finiteChars .code)
      else NumberStyle.code.infinity).toList = x.sizeLexeme := by
    unfold sizeLexeme
    split
    · exact String.toList_ofList
    · rfl
  unfold text
  split
  · decide
  · dsimp only
    split
    · rw [String.toList_append, size]
      have minus := lex_minus c cs name
      rw [← begins, single] at minus
      exact minus
    · rw [size, single]

/-! ## Expressions -/

theorem Expr.lex_code_var (style : CodeStyle) (v : Variable)
    (valid : isIdentifier v.name.toList = true) :
    lex ((Expr.var v).code style).toList = [v.name.toList] := by
  rw [Expr.code_var, lex_identifier _ valid]

theorem Expr.lex_code_binary (style : CodeStyle) (op : Operator) (l r : Expr) :
    lex ((Expr.binary op l r).code style).toList =
      lex op.code.1.toList ++ (lex (l.code style).toList ++
        (lex op.code.2.1.toList ++ (lex (r.code style).toList ++ lex op.code.2.2.toList))) := by
  have before : op.code.1.toList.getLast?.all isSeparator = true := by cases op <;> decide
  have between : op.code.2.1.toList.getLast?.all isSeparator = true := by cases op <;> decide
  have opened : ∀ cs, (op.code.2.1.toList ++ cs).head?.all isSeparator = true := by
    intro cs
    cases op <;> rfl
  have after : op.code.2.2.toList.head?.all isSeparator = true := by cases op <;> decide
  rw [Expr.code_binary, lex_append _ _ (.inl before), lex_append _ _ (.inr (opened _)),
    lex_append _ _ (.inl between), lex_append _ _ (.inr after)]

/-! ## Statements -/

namespace Stmt

theorem lex_code_assign (style : CodeStyle) (x : Variable) (e : Expr)
    (valid : isIdentifier x.name.toList = true) :
    lex ((Stmt.assign x e).code style).toList =
      x.name.toList :: ['='] :: (lex (e.code style).toList ++ [[';']]) := by
  rw [code_assign, lex_append _ _ (.inr rfl), lex_append _ _ (.inl (by decide)),
    lex_append _ _ (.inr (by decide)), lex_identifier _ valid]
  rfl

theorem lex_bodyChars (style : CodeStyle) (ss : List Stmt) :
    lex (bodyChars style ss) = ss.flatMap fun s => lex (s.code style).toList := by
  induction ss with
  | nil => rfl
  | cons s ss ih =>
    have line : lex ((s.code style).toList ++ ['\n']) = lex (s.code style).toList := by
      rw [lex_append _ _ (.inr (by decide))]
      exact List.append_nil _
    have apart : Apart ((s.code style).toList ++ ['\n']) (bodyChars style ss) := by
      left
      rw [List.getLast?_concat]
      rfl
    rw [bodyChars_cons, lex_append _ _ apart, line, ih, List.flatMap_cons]

theorem lex_code_block (style : CodeStyle) (blank : ∀ c ∈ style.indent.toList, isBlank c = true)
    (ss : List Stmt) :
    lex ((Stmt.block ss).code style).toList =
      ['{'] :: (ss.flatMap (fun s => lex (s.code style).toList) ++ [['}']]) := by
  cases ss with
  | nil =>
    rw [code_block_nil]
    rfl
  | cons s ss =>
    rw [code_block_cons, lex_append _ _ (.inl (by decide)), lex_append _ _ (.inr (by decide)),
      lex_expandWith _ _ blank, lex_bodyChars]
    rfl

theorem lex_token (style : CodeStyle) (op : Comparison) :
    lex (" " ++ style.token op ++ " ").toList = [(style.token op).toList] := by
  have tokens : ∀ token ∈ ["=", "==", "<", ">"], lex (" " ++ token ++ " ").toList = [token.toList] := by
    decide
  exact tokens _ (style.token_mem op)

theorem lex_code_conditional (style : CodeStyle) (op : Comparison) (l r : Expr) (t : Stmt)
    (f : Option Stmt) :
    lex ((Stmt.conditional op l r t f).code style).toList =
      "if".toList :: ['('] :: (lex (l.code style).toList ++ ((style.token op).toList ::
        (lex (r.code style).toList ++ ([')'] :: (lex (t.code style).toList ++
          ("else".toList :: lex (elseCode style f).toList)))))) := by
  have token : ∀ cs, lex ((" " ++ style.token op ++ " ").toList ++ cs) =
      (style.token op).toList :: lex cs := by
    intro cs
    rw [lex_append, lex_token]
    · rfl
    · left
      rw [String.toList_append]
      exact congrArg (Option.all isSeparator) List.getLast?_concat
  have spaced : ∀ cs,
      ((" " ++ style.token op ++ " ").toList ++ cs).head?.all isSeparator = true := by
    intro cs
    rw [String.toList_append, String.toList_append]
    rfl
  rw [code_conditional, lex_append _ _ (.inl (by decide)), lex_append _ _ (.inr (spaced _)), token,
    lex_append _ _ (.inr rfl), lex_append _ _ (.inl (by decide)), lex_append _ _ (.inr rfl),
    lex_append _ _ (.inl (by decide))]
  rfl

end Stmt

end Abacus
