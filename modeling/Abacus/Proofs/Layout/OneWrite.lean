import Abacus.Proofs.Code.Text
import Abacus.Proofs.Tree.Outline

/-!
# Producing a text is writing it

Code and outlines are not produced as texts.  They go piece by piece into
whatever writer they are given, which may already be in the middle of a line,
and on the way they open layers of their own and close them again.  On a sink
without limit none of this can be seen from outside: the sink and every layer are
left as by one write of the finished text (`WritesAtOnce`).

Each level of a tree puts a layer on top of the layers that are already there.
So the statement has to hold for all stacks of layers at once, which is what
`Script.Streams` says, and what the scripts of code and outlines were seen to do.
-/

namespace Abacus

/-- Onto nothing the call produces the text, and on any layers over a sink without
limit it does what one write of the text does. -/
def WritesAtOnce (produce : Writer → Performance) (text : String) : Prop :=
  (produce (.onto "" none)).writer.sink.text = text ∧
    ∀ (layers : List Layer) (before : String),
      (produce ⟨layers, ⟨before, none⟩⟩).complete = true ∧
        Writer.write ⟨layers, ⟨before, none⟩⟩ text =
          (true, (produce ⟨layers, ⟨before, none⟩⟩).writer)

theorem Script.Streams.writesAtOnce {script : Script}
    (streams : script.Streams script.text.toList) :
    WritesAtOnce script.perform script.text := by
  refine ⟨rfl, fun layers before => ?_⟩
  obtain ⟨told, performed⟩ := streams
  have whole := performed [] layers before []
  rw [List.append_nil, performFrom] at whole
  rw [perform, whole, Writer.write_unlimited]
  exact ⟨rfl, rfl⟩

/-- Code and outlines go into any layers as their text does.  So the code of a block
is that of its statements, each with an end of line, with the indentation in front of
every line that is not blank, between braces. -/
theorem writesAtOnce_of_tree :
    (∀ (style : CodeStyle) (e : Expr), WritesAtOnce (fun w => w.writeExpr style e) (e.code style)) ∧
    (∀ (style : CodeStyle) (s : Stmt), WritesAtOnce (fun w => w.writeStmt style s) (s.code style)) ∧
    (∀ n : Node, WritesAtOnce (fun w => w.writeOutline n) n.outline) ∧
    ∀ (style : CodeStyle) (s : Stmt) (ss : List Stmt),
      ((Stmt.block (s :: ss)).code style).toList =
        "\x7b\n".toList ++
          (padLines style.indent.toList
            ((s :: ss).flatMap fun t => (t.code style).toList ++ ['\n']) ++ "\x7d".toList) := by
  refine ⟨fun style e => ?_, fun style s => ?_, fun n => ?_, fun style s ss => ?_⟩
  · exact (e.streams_code style).writesAtOnce
  · exact (s.streams_code style).writesAtOnce
  · exact (n.streams_outlineUnder none).writesAtOnce
  · rw [Stmt.code_block_cons, Layer.expandWith_true]
    rfl

end Abacus
