import Abacus.Code.Generate
import Abacus.Proofs.Layout.Stream

/-!
# The text of code

Code is produced as a script, from a list of tasks.  Here it is read as text,
by recursion on the tree: the code of a tree is put together from the code of
its parts (`Expr.code_binary`, `Stmt.code_assign`, `Stmt.code_block_cons`,
`Stmt.code_conditional`).  The body of a block is the code of its statements,
each on lines of its own, expanded by one layer.

Each equation comes from the same place.  The script of a tree streams the text
that the equation gives, if the scripts of the parts stream their code, and a
script streams no other text than its own.
-/

namespace Abacus

/-! ## Expressions -/

theorem Expr.streams_binary (style : CodeStyle) (op : Operator) (l r : Expr) {ls rs : List Char}
    (left : (l.codeScript style).Streams ls) (right : (r.codeScript style).Streams rs) :
    ((Expr.binary op l r).codeScript style).Streams
      (op.code.1.toList ++ (ls ++ (op.code.2.1.toList ++ (rs ++ op.code.2.2.toList)))) := by
  have pieces := (Script.streams_write op.code.1).append (left.append
    ((Script.streams_write op.code.2.1).append (right.append (Script.streams_write op.code.2.2))))
  rw [Expr.codeScript_eq]
  exact pieces

/-- The script of an expression streams its code. -/
theorem Expr.streams_code (style : CodeStyle) (e : Expr) :
    (e.codeScript style).Streams (e.code style).toList := by
  -- it is enough that the script streams anything, since that is then its text
  suffices some : ∃ cs, (e.codeScript style).Streams cs by
    obtain ⟨cs, streams⟩ := some
    rw [Expr.code, streams.toList_text]
    exact streams
  induction e with
  | const c =>
    rw [Expr.codeScript_eq]
    exact ⟨_, Script.streams_write (c.value.text .code)⟩
  | var v =>
    rw [Expr.codeScript_eq]
    exact ⟨_, Script.streams_write v.name⟩
  | binary op l r ihl ihr =>
    obtain ⟨ls, left⟩ := ihl
    obtain ⟨rs, right⟩ := ihr
    exact ⟨_, Expr.streams_binary style op l r left right⟩

@[simp] theorem Expr.code_const (style : CodeStyle) (c : Constant) :
    (Expr.const c).code style = c.value.text .code := by
  have streams : ((Expr.const c).codeScript style).Streams (c.value.text .code).toList := by
    rw [Expr.codeScript_eq]
    exact Script.streams_write _
  rw [Expr.code, streams.text, String.ofList_toList]

@[simp] theorem Expr.code_var (style : CodeStyle) (v : Variable) :
    (Expr.var v).code style = v.name := by
  have streams : ((Expr.var v).codeScript style).Streams v.name.toList := by
    rw [Expr.codeScript_eq]
    exact Script.streams_write _
  rw [Expr.code, streams.text, String.ofList_toList]

/-- The code of an operation: its operands with what stands around them. -/
theorem Expr.code_binary (style : CodeStyle) (op : Operator) (l r : Expr) :
    ((Expr.binary op l r).code style).toList =
      op.code.1.toList ++ ((l.code style).toList ++
        (op.code.2.1.toList ++ ((r.code style).toList ++ op.code.2.2.toList))) :=
  (Expr.streams_binary style op l r (l.streams_code style) (r.streams_code style)).toList_text

/-! ## Statements -/

theorem CodeStyle.token_mem (style : CodeStyle) (op : Comparison) :
    style.token op ∈ ["=", "==", "<", ">"] := by
  cases op with
  | equals => cases equals : style.equals <;> simp [token, equals, EqualsToken.text]
  | lessThan => simp [token]
  | greaterThan => simp [token]

namespace Stmt

/-- The code of the statements of a block, before it is indented. -/
def bodyChars (style : CodeStyle) (ss : List Stmt) : List Char :=
  ss.flatMap fun s => (s.code style).toList ++ ['\n']

theorem bodyChars_cons (style : CodeStyle) (s : Stmt) (ss : List Stmt) :
    bodyChars style (s :: ss) = (s.code style).toList ++ ['\n'] ++ bodyChars style ss :=
  List.flatMap_cons

/-- The code of an else part. -/
def elseCode (style : CodeStyle) : Option Stmt → String
  | some s => s.code style
  | none => "\x7b\x7d"

theorem streams_assign (style : CodeStyle) (x : Variable) (e : Expr) :
    ((Stmt.assign x e).codeScript style).Streams
      (x.name.toList ++ (" = ".toList ++ ((e.code style).toList ++ ";".toList))) := by
  have pieces := (Script.streams_write x.name).append ((Script.streams_write " = ").append
    ((e.streams_code style).append (Script.streams_write ";")))
  rw [Stmt.codeScript_eq]
  exact pieces.part _

theorem streams_block_nil (style : CodeStyle) :
    ((Stmt.block []).codeScript style).Streams "\x7b\x7d".toList := by
  rw [Stmt.codeScript_eq]
  exact (Script.streams_write "\x7b\x7d").part _

/-- The scripts of the tasks of a block: braces around a layer with its statements. -/
theorem scripts_block_cons (style : CodeStyle) (s : Stmt) (ss : List Stmt) :
    ((Stmt.block (s :: ss)).codeTasks style).flatMap (CodeTask.script style) =
      [.write "\x7b\n"] ++ (.indent style.indent ::
        (s :: ss).flatMap (fun t => t.codeScript style ++ [.write "\n"]) ++ [.dedent] ++
          [.write "\x7d"]) := by
  rw [codeTasks, List.flatMap_append, List.flatMap_append, List.flatMap_assoc]
  simp [CodeTask.script, CodeTask.text]

theorem streams_block_cons (style : CodeStyle) (s : Stmt) (ss : List Stmt)
    (chars : Stmt → List Char) (each : ∀ t ∈ s :: ss, (t.codeScript style).Streams (chars t)) :
    ((Stmt.block (s :: ss)).codeScript style).Streams
      ("\x7b\n".toList ++ (Layer.expandWith style.indent.toList true
        ((s :: ss).flatMap fun t => chars t ++ ['\n']) ++ "\x7d".toList)) := by
  have lines := Script.streams_flatMap (s :: ss)
    (fun t => t.codeScript style ++ [.write "\n"]) (fun t => chars t ++ ['\n'])
    fun t here => (each t here).append (Script.streams_write "\n")
  have pieces := (Script.streams_write "\x7b\n").append
    ((lines.indent style.indent).append (Script.streams_write "\x7d"))
  rw [Stmt.codeScript_eq, scripts_block_cons]
  exact pieces.part _

theorem streams_conditional (style : CodeStyle) (op : Comparison) (l r : Expr) (t : Stmt)
    (f : Option Stmt) (ts fs : List Char) (first : (t.codeScript style).Streams ts)
    (second : ∀ s ∈ f, (s.codeScript style).Streams fs) (absent : f = none → fs = "\x7b\x7d".toList) :
    ((Stmt.conditional op l r t f).codeScript style).Streams
      ("if (".toList ++ ((l.code style).toList ++ ((" " ++ style.token op ++ " ").toList ++
        ((r.code style).toList ++ (") ".toList ++ (ts ++ (" else ".toList ++ fs))))))) := by
  have start : ∀ {script : Script} {cs : List Char}, script.Streams cs → Script.Streams _ _ :=
    fun otherwise => (Script.streams_write "if (").append ((l.streams_code style).append
      ((Script.streams_write (" " ++ style.token op ++ " ")).append ((r.streams_code style).append
        ((Script.streams_write ") ").append (first.append otherwise)))))
  rw [Stmt.codeScript_eq]
  refine Script.Streams.part ?_ _
  cases f with
  | none =>
    rw [absent rfl]
    exact start (Script.streams_write " else \x7b\x7d")
  | some f =>
    have last : Script.Streams (f.codeScript style ++ []) fs := by
      rw [List.append_nil]
      exact second f rfl
    exact start ((Script.streams_write " else ").append last)

/-- The script of a statement streams its code. -/
theorem streams_code (style : CodeStyle) (s : Stmt) :
    (s.codeScript style).Streams (s.code style).toList := by
  suffices some : ∃ cs, (s.codeScript style).Streams cs by
    obtain ⟨cs, streams⟩ := some
    rw [Stmt.code, streams.toList_text]
    exact streams
  induction s using Stmt.nestedInduction with
  | assign x e => exact ⟨_, streams_assign style x e⟩
  | block ss ih =>
    cases ss with
    | nil => exact ⟨_, streams_block_nil style⟩
    | cons s ss =>
      refine ⟨_, streams_block_cons style s ss (fun t => (t.code style).toList) ?_⟩
      intro t here
      obtain ⟨cs, streams⟩ := ih t here
      rw [Stmt.code, streams.toList_text]
      exact streams
  | conditional op l r t f iht ihf =>
    obtain ⟨ts, first⟩ := iht
    cases f with
    | none =>
      refine ⟨_, streams_conditional style op l r t none ts _ first ?_ fun _ => rfl⟩
      intro s here
      cases here
    | some f =>
      obtain ⟨fs, second⟩ := ihf f rfl
      refine ⟨_, streams_conditional style op l r t (some f) ts fs first ?_ ?_⟩
      · intro s here
        cases here
        exact second
      · intro absent
        cases absent

theorem code_assign (style : CodeStyle) (x : Variable) (e : Expr) :
    ((Stmt.assign x e).code style).toList =
      x.name.toList ++ (" = ".toList ++ ((e.code style).toList ++ ";".toList)) :=
  (streams_assign style x e).toList_text

theorem code_block_nil (style : CodeStyle) : (Stmt.block []).code style = "\x7b\x7d" := by
  rw [Stmt.code, (streams_block_nil style).text, String.ofList_toList]

/-- The code of a block: braces around the indented code of its statements. -/
theorem code_block_cons (style : CodeStyle) (s : Stmt) (ss : List Stmt) :
    ((Stmt.block (s :: ss)).code style).toList =
      "\x7b\n".toList ++ (Layer.expandWith style.indent.toList true (bodyChars style (s :: ss)) ++
        "\x7d".toList) :=
  (streams_block_cons style s ss _ fun t _ => t.streams_code style).toList_text

/-- The code of a conditional always has an else part. -/
theorem code_conditional (style : CodeStyle) (op : Comparison) (l r : Expr) (t : Stmt)
    (f : Option Stmt) :
    ((Stmt.conditional op l r t f).code style).toList =
      "if (".toList ++ ((l.code style).toList ++ ((" " ++ style.token op ++ " ").toList ++
        ((r.code style).toList ++ (") ".toList ++ ((t.code style).toList ++
          (" else ".toList ++ (elseCode style f).toList)))))) := by
  refine (streams_conditional style op l r t f _ _ (t.streams_code style) ?_ ?_).toList_text
  · intro s here
    cases here
    exact s.streams_code style
  · intro absent
    rw [absent]
    rfl

end Stmt

end Abacus
