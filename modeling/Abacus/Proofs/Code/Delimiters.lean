import Abacus.Proofs.Code.Text
import Abacus.Proofs.Number.ReadBack
import Abacus.Proofs.Tree.Names

/-!
# Delimiters are nested

Of the code of a tree only the parentheses and braces are kept.  What is left is a
word of delimiters, and it is nested: each closing delimiter closes the innermost
one that is open, and in the end none is.

Nesting is said twice.  `Delimiter.Nested` builds nested words as trees are built,
so it is what the induction over trees shows.  `Delimiter.openAfter` reads a word
from the left with a stack of what is open, and fails at a delimiter that closes
anything but the top.  A nested word leaves every stack as it found it
(`Delimiter.Nested.foldlM_step`).

Layers write their pads between the delimiters.  They cannot be seen in the word
if the indentation has no delimiter.
-/

namespace Abacus

/-! ## Words of delimiters -/

/-- The shapes of delimiters. -/
inductive DelimiterShape where
  | round
  | curly
  deriving DecidableEq

/-- A delimiter. -/
inductive Delimiter where
  | opening (shape : DelimiterShape)
  | closing (shape : DelimiterShape)
  deriving DecidableEq

/-- The delimiter that a character is. -/
def Delimiter.ofChar? (c : Char) : Option Delimiter :=
  if c = '(' then some (.opening .round)
  else if c = ')' then some (.closing .round)
  else if c = '{' then some (.opening .curly)
  else if c = '}' then some (.closing .curly)
  else none

/-- The delimiters of a text, in order. -/
def delimiters (cs : List Char) : List Delimiter := cs.filterMap Delimiter.ofChar?

theorem delimiters_append (cs ds : List Char) :
    delimiters (cs ++ ds) = delimiters cs ++ delimiters ds :=
  List.filterMap_append

theorem delimiters_eq_nil {cs : List Char}
    (absent : ∀ c, (Delimiter.ofChar? c).isSome = true → c ∉ cs) : delimiters cs = [] := by
  refine List.filterMap_eq_nil_iff.mpr fun c here => ?_
  cases delimiter : Delimiter.ofChar? c with
  | none => rfl
  | some d => exact absurd here (absent c (by rw [delimiter]; rfl))

theorem eq_of_isSome_ofChar? {c : Char} (delimiter : (Delimiter.ofChar? c).isSome = true) :
    c = '(' ∨ c = ')' ∨ c = '{' ∨ c = '}' := by
  by_contra other
  simp only [not_or] at other
  simp [Delimiter.ofChar?, other] at delimiter

namespace Delimiter

/-! ## Nesting -/

/-- What is open behind a delimiter, if this is what is open in front of it, the innermost
first.  Only the innermost can be closed. -/
def step : List DelimiterShape → Delimiter → Option (List DelimiterShape)
  | opened, .opening shape => some (shape :: opened)
  | [], .closing _ => none
  | innermost :: outer, .closing shape => if innermost = shape then some outer else none

/-- What is open after a word, the innermost first, if no delimiter of it is misplaced. -/
def openAfter (word : List Delimiter) : Option (List DelimiterShape) := word.foldlM step []

/-- Words in which each opening delimiter has its closing one, with a nested word between
them. -/
inductive Nested : List Delimiter → Prop where
  | nil : Nested []
  | append {word more : List Delimiter} : Nested word → Nested more → Nested (word ++ more)
  | pair (shape : DelimiterShape) {inner : List Delimiter} :
    Nested inner → Nested (.opening shape :: (inner ++ [.closing shape]))

/-- A nested word leaves open what was open in front of it. -/
theorem Nested.foldlM_step {word : List Delimiter} (nested : Nested word)
    (opened : List DelimiterShape) : word.foldlM step opened = some opened := by
  induction nested generalizing opened with
  | nil => rfl
  | append _ _ first later =>
    rw [List.foldlM_append, first]
    exact later opened
  | pair shape _ inner =>
    have closed : [closing shape].foldlM step (shape :: opened) = some opened := by
      simp [step]
    rw [List.foldlM_cons]
    show List.foldlM step (shape :: opened) _ = _
    rw [List.foldlM_append, inner]
    exact closed

/-- A delimiter that is not misplaced closes the innermost one. -/
theorem eq_cons_of_step_closing {opened outer : List DelimiterShape} {shape : DelimiterShape}
    (read : step opened (.closing shape) = some outer) : opened = shape :: outer := by
  cases opened with
  | nil => cases read
  | cons innermost rest =>
    rw [step] at read
    split at read
    next same =>
      cases read
      rw [same]
    next => cases read

end Delimiter

/-- The delimiters of the text are nested. -/
structure WellDelimited (text : String) : Prop where
  /-- They are built up from pairs. -/
  nested : Delimiter.Nested (delimiters text.toList)
  /-- What is closed is the innermost that is open. -/
  innermost : ∀ before shape after,
    delimiters text.toList = before ++ .closing shape :: after →
      ∃ outer, Delimiter.openAfter before = some (shape :: outer)
  /-- Nothing is left open. -/
  closed : Delimiter.openAfter (delimiters text.toList) = some []

theorem Delimiter.Nested.wellDelimited {text : String}
    (nested : Nested (delimiters text.toList)) : WellDelimited text := by
  have closed : openAfter (delimiters text.toList) = some [] := nested.foldlM_step []
  refine ⟨nested, fun before shape after split => ?_, closed⟩
  rw [split, openAfter, List.foldlM_append] at closed
  obtain ⟨opened, read, rest⟩ := Option.bind_eq_some_iff.mp closed
  rw [List.foldlM_cons] at rest
  obtain ⟨outer, last, -⟩ := Option.bind_eq_some_iff.mp rest
  exact ⟨outer, eq_cons_of_step_closing last ▸ read⟩

/-! ## Expressions -/

theorem Binary64.delimiters_text (x : Binary64) : delimiters (x.text .code).toList = [] := by
  refine delimiters_eq_nil fun c delimiter => ?_
  have foreign : isNumeralChar c = false ∧ c ∉ "NAN".toList ∧ c ∉ "INFINITY".toList := by
    rcases eq_of_isSome_ofChar? delimiter with rfl | rfl | rfl | rfl <;> decide
  exact x.notMem_text rfl foreign.1 foreign.2.1 foreign.2.2

theorem Operator.delimiters_code (op : Operator) :
    delimiters op.code.1.toList = [.opening .round] ∧ delimiters op.code.2.1.toList = [] ∧
      delimiters op.code.2.2.toList = [.closing .round] := by
  cases op <;> decide

theorem Expr.nested_code (style : CodeStyle) (e : Expr)
    (names : ∀ name ∈ e.names, delimiters name.toList = []) :
    Delimiter.Nested (delimiters (e.code style).toList) := by
  induction e with
  | const c =>
    rw [Expr.code_const, c.value.delimiters_text]
    exact .nil
  | var v =>
    rw [Expr.code_var, names v.name (List.mem_singleton_self _)]
    exact .nil
  | binary op l r ihl ihr =>
    obtain ⟨left, right⟩ := Expr.forall_names_binary.mp names
    obtain ⟨before, between, after⟩ := op.delimiters_code
    have operands := ((ihl left).append (ihr right)).pair .round
    rw [Expr.code_binary]
    simp only [delimiters_append, before, between, after, List.nil_append]
    rwa [List.append_assoc] at operands

/-! ## Statements -/

/-- A pad without delimiters leaves no trace among them. -/
theorem Layer.delimiters_expandWith {pad : List Char} (plain : delimiters pad = []) (due : Bool)
    (cs : List Char) : delimiters (expandWith pad due cs) = delimiters cs := by
  induction cs generalizing due with
  | nil => rfl
  | cons c cs ih =>
    have nothing : delimiters (lead pad due c) = [] := by
      unfold lead
      split
      · exact plain
      · rfl
    have behind : ∀ ds, delimiters (c :: ds) = delimiters [c] ++ delimiters ds :=
      delimiters_append [c]
    rw [expandWith_cons, delimiters_append, nothing, List.nil_append, behind, ih, ← behind]

namespace Stmt

variable {style : CodeStyle}

theorem nested_bodyChars {ss : List Stmt}
    (each : ∀ s ∈ ss, Delimiter.Nested (delimiters (s.code style).toList)) :
    Delimiter.Nested (delimiters (bodyChars style ss)) := by
  induction ss with
  | nil => exact .nil
  | cons s ss ih =>
    obtain ⟨first, later⟩ := List.forall_mem_cons.mp each
    have newline : delimiters ['\n'] = [] := rfl
    rw [bodyChars_cons, delimiters_append, delimiters_append, newline, List.append_nil]
    exact first.append (ih later)

theorem nested_code (indent : delimiters style.indent.toList = []) (s : Stmt)
    (names : ∀ name ∈ s.names, delimiters name.toList = []) :
    Delimiter.Nested (delimiters (s.code style).toList) := by
  have braces : Delimiter.Nested (delimiters "\x7b\x7d".toList) := Delimiter.Nested.nil.pair .curly
  induction s using Stmt.nestedInduction with
  | assign x e =>
    obtain ⟨target, value⟩ := forall_names_assign.mp names
    have words : delimiters " = ".toList = [] ∧ delimiters ";".toList = [] := by decide
    rw [code_assign]
    simp only [delimiters_append, target, words, List.nil_append, List.append_nil]
    exact e.nested_code style value
  | block ss ih =>
    have valid := forall_names_block.mp names
    cases ss with
    | nil =>
      rw [code_block_nil]
      exact braces
    | cons s ss =>
      have body := (nested_bodyChars fun s here => ih s here (valid s here)).pair .curly
      rw [code_block_cons, delimiters_append, delimiters_append, Layer.delimiters_expandWith indent]
      exact body
  | conditional op l r t f iht ihf =>
    obtain ⟨left, right, first, second⟩ := forall_names_conditional.mp names
    have operands := ((l.nested_code style left).append (r.nested_code style right)).pair .round
    have otherwise : Delimiter.Nested (delimiters (elseCode style f).toList) := by
      cases f with
      | none => exact braces
      | some f => exact ihf f rfl (second f rfl)
    have words : delimiters "if (".toList = [.opening .round] ∧
        delimiters ") ".toList = [.closing .round] ∧ delimiters " else ".toList = [] := by decide
    have token : delimiters (" " ++ style.token op ++ " ").toList = [] := by
      have tokens : ∀ token ∈ ["=", "==", "<", ">"],
          delimiters (" " ++ token ++ " ").toList = [] := by decide
      exact tokens _ (style.token_mem op)
    have all := operands.append ((iht first).append otherwise)
    rw [code_conditional]
    simp only [delimiters_append, words, token, List.nil_append]
    simpa only [List.cons_append, List.nil_append, List.append_assoc] using all

end Stmt

/-- The parentheses and braces of code are nested, if no name and no indentation has any. -/
theorem wellDelimited_code (style : CodeStyle) :
    (∀ e : Expr, (∀ name ∈ e.names, delimiters name.toList = []) →
      WellDelimited (e.code style)) ∧
    (∀ s : Stmt, (∀ name ∈ s.names, delimiters name.toList = []) →
      delimiters style.indent.toList = [] → WellDelimited (s.code style)) := by
  refine ⟨fun e names => ?_, fun s names indent => ?_⟩
  · exact (e.nested_code style names).wellDelimited
  · exact (s.nested_code indent names).wellDelimited

/-- A power in an operation, and blocks in the branches of a conditional.  Names and
indentation end lines. -/
theorem wellDelimited_code_lineInName :
    WellDelimited ((Expr.binary .addition
      (.binary .exponentiation (.var ⟨"x\n"⟩) (.var ⟨""⟩)) (.var ⟨"y"⟩)).code ⟨"\n;", .legacy⟩) ∧
    WellDelimited ((Stmt.conditional .equals (.var ⟨"x\n"⟩) (.var ⟨"y"⟩)
      (.block [.block [.assign ⟨"y"⟩ (.var ⟨"x\n"⟩)], .block []]) none).code ⟨"\n;", .legacy⟩) :=
  ⟨(wellDelimited_code _).1 _ (by decide), (wellDelimited_code _).2 _ (by decide) (by decide)⟩

end Abacus
