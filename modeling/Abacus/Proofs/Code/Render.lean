import Abacus.Proofs.Code.Text
import Abacus.Proofs.Layout.Lines
import Abacus.Proofs.Number.ReadBack
import Abacus.Proofs.Tree.Names

/-!
# Code in closed form

Code is laid out by a stack of layers, and nothing in its production knows how
deep a block is.  `Stmt.render` knows it and uses no layer: it is told the depth
and repeats the indentation that many times.  The two agree if no name and no
indentation ends a line of its own.

What a layer does to rendered code is the whole argument: it renders it one level
deeper (`Stmt.reshapes_render`).  A layer puts its pad in front of the first
character of a line, so it has to be seen that each line of the code has one,
behind an indentation that may be empty.
-/

namespace Abacus

/-! ## The closed form -/

/-- An expression as text. -/
def Expr.render : Expr → String
  | .const c => c.value.text .code
  | .var v => v.name
  | .binary op l r => op.code.1 ++ l.render ++ op.code.2.1 ++ r.render ++ op.code.2.2

/-- The indentation at a depth. -/
def CodeStyle.margin (style : CodeStyle) (depth : Nat) : String :=
  String.join (List.replicate depth style.indent)

mutual

/-- A statement as text, at the given depth of blocks. -/
def Stmt.render (style : CodeStyle) (depth : Nat) : Stmt → String
  | .assign x e => x.name ++ " = " ++ e.render ++ ";"
  | .block ss =>
    if ss.isEmpty then "\x7b\x7d"
    else "\x7b\n" ++ Stmt.renderLines style (depth + 1) ss ++ style.margin depth ++ "\x7d"
  | .conditional op l r t f =>
    "if (" ++ l.render ++ " " ++ style.token op ++ " " ++ r.render ++ ") " ++
      t.render style depth ++ " else " ++ Stmt.renderElse style depth f

/-- Statements as text, each on lines of its own. -/
def Stmt.renderLines (style : CodeStyle) (depth : Nat) : List Stmt → String
  | [] => ""
  | s :: ss => style.margin depth ++ s.render style depth ++ "\n" ++ Stmt.renderLines style depth ss

/-- An else part as text. -/
def Stmt.renderElse (style : CodeStyle) (depth : Nat) : Option Stmt → String
  | none => "\x7b\x7d"
  | some s => s.render style depth

end

/-! ## Expressions -/

theorem Expr.code_eq_render (style : CodeStyle) (e : Expr) : e.code style = e.render := by
  induction e with
  | const c => exact Expr.code_const style c
  | var v => exact Expr.code_var style v
  | binary op l r ihl ihr =>
    apply String.toList_inj.mp
    rw [Expr.code_binary, ihl, ihr]
    simp only [Expr.render, String.toList_append, List.append_assoc]

/-- The characters that lay code out.  No expression is written with them. -/
def isFrame (c : Char) : Bool := c == '\n' || c == '{' || c == '}'

theorem eq_of_isFrame {c : Char} (frame : isFrame c = true) : c = '\n' ∨ c = '{' ∨ c = '}' := by
  simpa [isFrame, or_assoc] using frame

theorem Binary64.frame_notMem_text (x : Binary64) {c : Char} (frame : isFrame c = true) :
    c ∉ (x.text .code).toList := by
  have foreign : isNumeralChar c = false ∧ c ∉ "NAN".toList ∧ c ∉ "INFINITY".toList := by
    rcases eq_of_isFrame frame with rfl | rfl | rfl <;> decide
  exact x.notMem_text rfl foreign.1 foreign.2.1 foreign.2.2

theorem Operator.frame_notMem_code (op : Operator) {c : Char} (frame : isFrame c = true) :
    c ∉ op.code.1.toList ∧ c ∉ op.code.2.1.toList ∧ c ∉ op.code.2.2.toList := by
  rcases eq_of_isFrame frame with rfl | rfl | rfl <;> cases op <;> decide

/-- Only through a name does an expression get a character that lays code out. -/
theorem Expr.frame_notMem_code {c : Char} (frame : isFrame c = true) (style : CodeStyle) (e : Expr)
    (names : ∀ name ∈ e.names, c ∉ name.toList) : c ∉ (e.code style).toList := by
  induction e with
  | const constant =>
    rw [Expr.code_const]
    exact constant.value.frame_notMem_text frame
  | var v =>
    rw [Expr.code_var]
    exact names v.name (List.mem_singleton_self _)
  | binary op l r ihl ihr =>
    obtain ⟨left, right⟩ := Expr.forall_names_binary.mp names
    obtain ⟨before, between, after⟩ := op.frame_notMem_code frame
    simp only [Expr.code_binary, List.mem_append, not_or]
    exact ⟨before, ihl left, between, ihr right, after⟩

/-! ## Headers -/

/-- What a conditional has in front of its first branch. -/
def CodeStyle.header (style : CodeStyle) (op : Comparison) (l r : Expr) : String :=
  "if (" ++ l.code style ++ (" " ++ style.token op ++ " ") ++ r.code style ++ ") "

theorem CodeStyle.frame_notMem_header {c : Char} (frame : isFrame c = true) (style : CodeStyle)
    (op : Comparison) (l r : Expr) (left : ∀ name ∈ l.names, c ∉ name.toList)
    (right : ∀ name ∈ r.names, c ∉ name.toList) : c ∉ (style.header op l r).toList := by
  have words : c ∉ "if (".toList ∧ c ∉ ") ".toList ∧
      ∀ token ∈ ["=", "==", "<", ">"], c ∉ (" " ++ token ++ " ").toList := by
    rcases eq_of_isFrame frame with rfl | rfl | rfl <;> decide
  obtain ⟨start, close, tokens⟩ := words
  have token := tokens _ (style.token_mem op)
  rw [header, String.toList_append, String.toList_append, String.toList_append,
    String.toList_append]
  simp only [List.mem_append, not_or]
  exact ⟨⟨⟨⟨start, l.frame_notMem_code frame style left⟩, token⟩,
    r.frame_notMem_code frame style right⟩, close⟩

theorem CodeStyle.exists_header_eq_cons (style : CodeStyle) (op : Comparison) (l r : Expr) :
    ∃ cs, (style.header op l r).toList = 'i' :: cs := by
  rw [header, String.append_assoc, String.append_assoc, String.append_assoc, String.toList_append]
  exact ⟨_, rfl⟩

theorem Stmt.code_conditional_header (style : CodeStyle) (op : Comparison) (l r : Expr) (t : Stmt)
    (f : Option Stmt) :
    ((Stmt.conditional op l r t f).code style).toList =
      (style.header op l r).toList ++ ((t.code style).toList ++
        (" else ".toList ++ (Stmt.elseCode style f).toList)) := by
  rw [Stmt.code_conditional, CodeStyle.header]
  simp only [String.toList_append, List.append_assoc]

/-! ## One level deeper -/

theorem CodeStyle.margin_zero (style : CodeStyle) : style.margin 0 = "" := rfl

theorem CodeStyle.toList_margin_succ (style : CodeStyle) (depth : Nat) :
    (style.margin (depth + 1)).toList = style.indent.toList ++ (style.margin depth).toList := by
  simp [margin, String.toList_join, List.replicate_succ]

theorem CodeStyle.notMem_margin (style : CodeStyle) {c : Char} (absent : c ∉ style.indent.toList)
    (depth : Nat) : c ∉ (style.margin depth).toList := by
  induction depth with
  | zero => exact List.not_mem_nil
  | succ depth ih =>
    rw [toList_margin_succ, List.mem_append, not_or]
    exact ⟨absent, ih⟩

/-- Inside a line, a layer with this pad makes the second text of the first, and is inside
a line again behind it. -/
def Layer.Reshapes (pad shallow deep : List Char) : Prop :=
  ∀ cs, expandWith pad false (shallow ++ cs) = deep ++ expandWith pad false cs

theorem Layer.reshapes_of_notMem (pad : List Char) {cs : List Char} (inside : '\n' ∉ cs) :
    Reshapes pad cs cs :=
  fun more => expandWith_stretch pad cs more inside

theorem Layer.Reshapes.append {pad shallow deep shallow' deep' : List Char}
    (first : Reshapes pad shallow deep) (later : Reshapes pad shallow' deep') :
    Reshapes pad (shallow ++ shallow') (deep ++ deep') := by
  intro cs
  rw [List.append_assoc, first, later, List.append_assoc]

namespace Stmt

theorem render_assign (style : CodeStyle) (depth : Nat) (x : Variable) (e : Expr) :
    ((Stmt.assign x e).render style depth).toList =
      x.name.toList ++ (" = ".toList ++ ((e.code style).toList ++ ";".toList)) := by
  have text : (Stmt.assign x e).render style depth = x.name ++ " = " ++ e.render ++ ";" := rfl
  rw [text, e.code_eq_render]
  simp only [String.toList_append, List.append_assoc]

theorem render_block_nil (style : CodeStyle) (depth : Nat) :
    (Stmt.block []).render style depth = "\x7b\x7d" := rfl

theorem render_block_cons (style : CodeStyle) (depth : Nat) (s : Stmt) (ss : List Stmt) :
    ((Stmt.block (s :: ss)).render style depth).toList =
      "\x7b\n".toList ++ ((renderLines style (depth + 1) (s :: ss)).toList ++
        ((style.margin depth).toList ++ "\x7d".toList)) := by
  have text : (Stmt.block (s :: ss)).render style depth =
      "\x7b\n" ++ renderLines style (depth + 1) (s :: ss) ++ style.margin depth ++ "\x7d" := rfl
  rw [text]
  simp only [String.toList_append, List.append_assoc]

theorem render_conditional (style : CodeStyle) (depth : Nat) (op : Comparison)
    (l r : Expr) (t : Stmt) (f : Option Stmt) :
    ((Stmt.conditional op l r t f).render style depth).toList =
      (style.header op l r).toList ++ ((t.render style depth).toList ++
        (" else ".toList ++ (renderElse style depth f).toList)) := by
  have text : (Stmt.conditional op l r t f).render style depth =
      "if (" ++ l.render ++ " " ++ style.token op ++ " " ++ r.render ++ ") " ++
        t.render style depth ++ " else " ++ renderElse style depth f := rfl
  rw [text, CodeStyle.header, l.code_eq_render, r.code_eq_render]
  simp only [String.toList_append, List.append_assoc]

theorem renderLines_cons (style : CodeStyle) (depth : Nat) (s : Stmt) (ss : List Stmt) :
    (renderLines style depth (s :: ss)).toList =
      (style.margin depth).toList ++ ((s.render style depth).toList ++ ("\n".toList ++
        (renderLines style depth ss).toList)) := by
  have text : renderLines style depth (s :: ss) =
      style.margin depth ++ s.render style depth ++ "\n" ++ renderLines style depth ss := rfl
  rw [text]
  simp only [String.toList_append, List.append_assoc]

/-- The first line of a statement has a character.  If an assignment has an empty name,
it is the space in front of the equals sign. -/
theorem exists_render_eq_cons (style : CodeStyle) (depth : Nat) (s : Stmt)
    (names : ∀ name ∈ s.names, '\n' ∉ name.toList) :
    ∃ c cs, (s.render style depth).toList = c :: cs ∧ c ≠ '\n' := by
  cases s with
  | assign x e =>
    have inside := (forall_names_assign.mp names).1
    rw [render_assign]
    cases name : x.name.toList with
    | nil => exact ⟨' ', _, rfl, by decide⟩
    | cons c cs =>
      rw [name] at inside
      exact ⟨c, _, rfl, Ne.symm (List.ne_of_not_mem_cons inside)⟩
  | block ss =>
    cases ss with
    | nil =>
      rw [render_block_nil]
      exact ⟨'{', _, rfl, by decide⟩
    | cons s ss =>
      rw [render_block_cons]
      exact ⟨'{', _, rfl, by decide⟩
  | conditional op l r t f =>
    obtain ⟨cs, begins⟩ := style.exists_header_eq_cons op l r
    rw [render_conditional, begins]
    exact ⟨'i', _, rfl, by decide⟩

section

variable (style : CodeStyle) (inline : '\n' ∉ style.indent.toList)

include inline

/-- Between two statements the pad of the layer is due, and inside one it is not. -/
theorem expandWith_renderLines (depth : Nat) (ss : List Stmt)
    (names : ∀ s ∈ ss, ∀ name ∈ s.names, '\n' ∉ name.toList)
    (each : ∀ s ∈ ss, Layer.Reshapes style.indent.toList (s.render style depth).toList
      (s.render style (depth + 1)).toList) (cs : List Char) :
    Layer.expandWith style.indent.toList true ((renderLines style depth ss).toList ++ cs) =
      (renderLines style (depth + 1) ss).toList ++
        Layer.expandWith style.indent.toList true cs := by
  induction ss with
  | nil => rfl
  | cons s ss ih =>
    obtain ⟨valid, validLater⟩ := List.forall_mem_cons.mp names
    obtain ⟨first, later⟩ := List.forall_mem_cons.mp each
    obtain ⟨c, text, begins, visible⟩ := s.exists_render_eq_cons style depth valid
    have line : ∀ more, Layer.expandWith style.indent.toList true
        ((style.margin depth).toList ++ ((s.render style depth).toList ++ more)) =
          (style.margin (depth + 1)).toList ++ ((s.render style (depth + 1)).toList ++
            Layer.expandWith style.indent.toList false more) := by
      intro more
      rw [← first, begins, List.cons_append, Layer.expandWith_start _ _ _ _
        (style.notMem_margin inline depth) visible, style.toList_margin_succ, List.append_assoc]
    have newline : ∀ more, Layer.expandWith style.indent.toList false ("\n".toList ++ more) =
        "\n".toList ++ Layer.expandWith style.indent.toList true more := fun _ => rfl
    rw [renderLines_cons, renderLines_cons]
    simp only [List.append_assoc]
    rw [line, newline, ih validLater later]

/-- A layer renders a statement one level deeper. -/
theorem reshapes_render (depth : Nat) (s : Stmt)
    (names : ∀ name ∈ s.names, '\n' ∉ name.toList) :
    Layer.Reshapes style.indent.toList (s.render style depth).toList
      (s.render style (depth + 1)).toList := by
  have braces : Layer.Reshapes style.indent.toList "\x7b\x7d".toList "\x7b\x7d".toList :=
    Layer.reshapes_of_notMem _ (by decide)
  induction s using Stmt.nestedInduction generalizing depth with
  | assign x e =>
    obtain ⟨target, value⟩ := forall_names_assign.mp names
    have inside : '\n' ∉ ((Stmt.assign x e).render style depth).toList := by
      simp only [render_assign, List.mem_append, not_or]
      exact ⟨target, by decide, e.frame_notMem_code rfl style value, by decide⟩
    exact Layer.reshapes_of_notMem _ inside
  | block ss ih =>
    have valid := forall_names_block.mp names
    cases ss with
    | nil => exact braces
    | cons s ss =>
      have body := expandWith_renderLines style inline (depth + 1) (s :: ss) valid
        fun s here => ih s here (depth + 1) (valid s here)
      have opened : ∀ more, Layer.expandWith style.indent.toList false ("\x7b\n".toList ++ more) =
          "\x7b\n".toList ++ Layer.expandWith style.indent.toList true more := fun _ => rfl
      have closed : ∀ more, Layer.expandWith style.indent.toList true
          ((style.margin depth).toList ++ ("\x7d".toList ++ more)) =
            (style.margin (depth + 1)).toList ++ ("\x7d".toList ++
              Layer.expandWith style.indent.toList false more) := by
        intro more
        rw [style.toList_margin_succ, List.append_assoc]
        exact Layer.expandWith_start _ _ '}' more (style.notMem_margin inline depth) (by decide)
      intro cs
      rw [render_block_cons, render_block_cons]
      simp only [List.append_assoc]
      rw [opened, body, closed]
  | conditional op l r t f iht ihf =>
    obtain ⟨left, right, first, second⟩ := forall_names_conditional.mp names
    have header := style.frame_notMem_header rfl op l r left right
    have word : '\n' ∉ " else ".toList := by decide
    have otherwise : Layer.Reshapes style.indent.toList (renderElse style depth f).toList
        (renderElse style (depth + 1) f).toList := by
      cases f with
      | none => exact braces
      | some f => exact ihf f rfl depth (second f rfl)
    rw [render_conditional, render_conditional]
    exact (Layer.reshapes_of_notMem _ header).append ((iht depth first).append
      ((Layer.reshapes_of_notMem _ word).append otherwise))

end

/-! ## Code -/

theorem bodyChars_eq_renderLines (style : CodeStyle) (ss : List Stmt)
    (same : ∀ s ∈ ss, s.code style = s.render style 0) :
    bodyChars style ss = (renderLines style 0 ss).toList := by
  induction ss with
  | nil => rfl
  | cons s ss ih =>
    obtain ⟨first, later⟩ := List.forall_mem_cons.mp same
    rw [bodyChars_cons, first, ih later, renderLines_cons, style.margin_zero, List.append_assoc]
    rfl

end Stmt

/-- The code of a statement is its closed form at depth zero. -/
theorem code_eq_render_zero (style : CodeStyle) (s : Stmt)
    (names : ∀ name ∈ s.names, '\n' ∉ name.toList) (inline : '\n' ∉ style.indent.toList) :
    s.code style = s.render style 0 := by
  induction s using Stmt.nestedInduction with
  | assign x e =>
    apply String.toList_inj.mp
    rw [Stmt.code_assign, Stmt.render_assign]
  | block ss ih =>
    have valid := Stmt.forall_names_block.mp names
    cases ss with
    | nil => exact Stmt.code_block_nil style
    | cons s ss =>
      have deeper := Stmt.expandWith_renderLines style inline 0 (s :: ss) valid
        (fun s here => s.reshapes_render style inline 0 (valid s here)) []
      rw [List.append_nil] at deeper
      apply String.toList_inj.mp
      rw [Stmt.code_block_cons, Stmt.render_block_cons, Stmt.bodyChars_eq_renderLines style _
        fun s here => ih s here (valid s here), deeper, style.margin_zero]
      simp [Layer.expandWith]
  | conditional op l r t f iht ihf =>
    obtain ⟨-, -, first, second⟩ := Stmt.forall_names_conditional.mp names
    have otherwise : Stmt.elseCode style f = Stmt.renderElse style 0 f := by
      cases f with
      | none => rfl
      | some f => exact ihf f rfl (second f rfl)
    apply String.toList_inj.mp
    rw [Stmt.code_conditional_header, Stmt.render_conditional, iht first, otherwise]

/-- Blocks in the branches of a conditional and next to it, empty ones among them, with
an empty name. -/
def nestedBlocks : Stmt :=
  .block [
    .conditional .equals (.var ⟨"a"⟩) (.var ⟨""⟩)
      (.block [.assign ⟨""⟩ (.binary .exponentiation (.var ⟨"a"⟩) (.var ⟨"b"⟩))])
      (some (.conditional .lessThan (.var ⟨"a"⟩) (.var ⟨"b"⟩) (.block []) none)),
    .block [.block []]]

theorem code_eq_render_zero_nestedBlocks :
    (∀ name ∈ nestedBlocks.names, '\n' ∉ name.toList) ∧
    nestedBlocks.code ⟨"\t", .equality⟩ = "\x7b\n" ++
      "\tif (a == ) \x7b\n" ++
      "\t\t = pow(a, b);\n" ++
      "\t\x7d else if (a < b) \x7b\x7d else \x7b\x7d\n" ++
      "\t\x7b\n" ++
      "\t\t\x7b\x7d\n" ++
      "\t\x7d\n" ++
      "\x7d" := by
  have names : ∀ name ∈ nestedBlocks.names, '\n' ∉ name.toList := by decide
  exact ⟨names, (code_eq_render_zero _ nestedBlocks names (by decide)).trans (by decide)⟩

end Abacus
