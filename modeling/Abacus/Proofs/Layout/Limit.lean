import Abacus.Code.Generate
import Abacus.Proofs.Layout.Stream
import Abacus.Tree.Outline

/-!
# Writing into a limited sink

A script adds to an unlimited sink a text that depends on the script and the
layers alone, `Script.added`.  On a sink with room for `n` characters the same
script leaves the first `n` characters of that text, wherever the limit falls:
inside a written text, inside the pad of some layer, or between two writes.
The performance is complete exactly if the text fits.

One step decides this.  A write is either taken, and then the rest of the
script meets the settled layers and the room that is left, or refused, and then
the sink is full and the script is abandoned, which writes nothing more
(`Script.abandon_sink`).
-/

namespace Abacus

/-! ## One write -/

theorem Sink.accept_limited (text : String) (n : Nat) (cs : List Char) :
    Sink.accept ⟨text, some n⟩ cs =
      (min n cs.length, ⟨text ++ String.ofList (cs.take n), some (n - cs.length)⟩) := rfl

/-- A text that fits goes through as it would without a limit. -/
theorem Writer.write_of_fits (layers : List Layer) (text written : String) (n : Nat)
    (fits : (Layer.expandAll layers written.toList).length ≤ n) :
    Writer.write ⟨layers, ⟨text, some n⟩⟩ written =
      (true, ⟨Layer.settleAll layers written.toList,
        ⟨text ++ String.ofList (Layer.expandAll layers written.toList),
          some (n - (Layer.expandAll layers written.toList).length)⟩⟩) := by
  have all : (Sink.accept ⟨text, some n⟩ (Layer.expandAll layers written.toList)).1 =
      (Layer.expandAll layers written.toList).length := Nat.min_eq_right fits
  have passed := Layer.pass_of_accepted layers ⟨text, some n⟩ written.toList all
  rw [Sink.accept_limited, List.take_of_length_le fits] at passed
  simp only [Writer.write, passed, BEq.rfl]

/-- A text that does not fit is refused, and fills the sink. -/
theorem Writer.write_of_overflows (layers : List Layer) (text written : String) (n : Nat)
    (overflows : n < (Layer.expandAll layers written.toList).length) :
    (Writer.write ⟨layers, ⟨text, some n⟩⟩ written).1 = false ∧
      (Writer.write ⟨layers, ⟨text, some n⟩⟩ written).2.sink.text =
        text ++ String.ofList ((Layer.expandAll layers written.toList).take n) := by
  have short : (Sink.accept ⟨text, some n⟩ (Layer.expandAll layers written.toList)).1 <
      (Layer.expandAll layers written.toList).length := by
    rw [Sink.accept_limited]
    exact Nat.lt_of_le_of_lt (Nat.min_le_left _ _) overflows
  obtain ⟨fewer, full⟩ := Layer.pass_of_refused layers ⟨text, some n⟩ written.toList short
  constructor
  · exact beq_false_of_ne (Nat.ne_of_lt fewer)
  · exact congrArg Sink.text full

namespace Script

/-! ## A whole script -/

/-- What a script adds to an unlimited sink through the given layers. -/
def added : Script → List Layer → List Char
  | [], _ => []
  | .write text :: rest, layers =>
    Layer.expandAll layers text.toList ++ added rest (Layer.settleAll layers text.toList)
  | .indent pad :: rest, layers => added rest (⟨pad, true⟩ :: layers)
  | .dedent :: rest, layers => added rest layers.tail
  | .enter _ :: rest, layers => added rest layers
  | .leave :: rest, layers => added rest layers

theorem performFrom_unlimited (script : Script) (layers : List Layer) (text : String)
    (marks : List Mark) :
    (performFrom script ⟨layers, ⟨text, none⟩⟩ marks).complete = true ∧
      (performFrom script ⟨layers, ⟨text, none⟩⟩ marks).writer.sink.text =
        text ++ String.ofList (script.added layers) := by
  induction script generalizing layers text marks with
  | nil => exact ⟨rfl, (String.append_empty).symm⟩
  | cons step rest ih =>
    cases step with
    | write written =>
      rw [performFrom, Writer.write_unlimited, added, String.ofList_append,
        ← String.append_assoc]
      exact ih _ _ _
    | indent pad => exact ih _ _ _
    | dedent => exact ih _ _ _
    | enter kind => exact ih _ _ _
    | leave => exact ih _ _ _

/-- What is closed after a refusal leaves the sink as it is. -/
theorem abandon_sink (script : Script) (unopened : Nat) (w : Writer) (marks : List Mark) :
    (abandon script unopened w marks).complete = false ∧
      (abandon script unopened w marks).writer.sink = w.sink := by
  fun_induction abandon script unopened w marks with
  | case1 => exact ⟨rfl, rfl⟩
  | case2 _ _ _ _ _ ih => exact ih
  | case3 _ _ _ _ _ ih => exact ih
  | case4 _ _ _ _ _ ih => exact ih
  | case5 _ _ _ ih => exact ih
  | case6 _ _ _ ih => exact ih
  | case7 _ _ _ _ ih => exact ih
  | case8 _ _ _ _ ih => exact ih

theorem performFrom_limited (script : Script) (layers : List Layer) (text : String) (n : Nat)
    (marks : List Mark) :
    (performFrom script ⟨layers, ⟨text, some n⟩⟩ marks).writer.sink.text =
        text ++ String.ofList ((script.added layers).take n) ∧
      ((performFrom script ⟨layers, ⟨text, some n⟩⟩ marks).complete = false ↔
        n < (script.added layers).length) := by
  induction script generalizing layers text n marks with
  | nil =>
    refine ⟨?_, by simp [performFrom, added]⟩
    simp [performFrom, added]
  | cons step rest ih =>
    cases step with
    | write written =>
      rw [performFrom, added, List.length_append]
      by_cases fits : (Layer.expandAll layers written.toList).length ≤ n
      · rw [Writer.write_of_fits _ _ _ _ fits, List.take_append, List.take_of_length_le fits,
          String.ofList_append, ← String.append_assoc]
        obtain ⟨kept, incomplete⟩ := ih (Layer.settleAll layers written.toList)
          (text ++ String.ofList (Layer.expandAll layers written.toList))
          (n - (Layer.expandAll layers written.toList).length) marks
        refine ⟨kept, incomplete.trans ?_⟩
        omega
      · have overflows := Nat.lt_of_not_le fits
        obtain ⟨refused, full⟩ := Writer.write_of_overflows layers text written n overflows
        -- the refused write already filled the sink, so nothing of the rest is among the first `n`
        rw [List.take_append_of_le_length (Nat.le_of_lt overflows)]
        cases answer : Writer.write ⟨layers, ⟨text, some n⟩⟩ written with
        | mk taken w =>
          rw [answer] at refused full
          obtain ⟨incomplete, same⟩ := abandon_sink rest 0 w marks
          cases refused
          refine ⟨?_, ?_⟩
          · exact (congrArg Sink.text same).trans full
          · exact ⟨fun _ => by omega, fun _ => incomplete⟩
    | indent pad => exact ih _ _ _ _
    | dedent => exact ih _ _ _ _
    | enter kind => exact ih _ _ _ _
    | leave => exact ih _ _ _ _

end Script

/-! ## Code and outlines -/

/-- Into room for `n` characters goes what fits of the text that the same call
adds to an unlimited sink, and the call fails exactly if that is not all. -/
def KeepsWhatFits (produce : Writer → Performance) : Prop :=
  ∀ layers : List Layer, ∃ added : List Char, ∀ text : String,
    (produce ⟨layers, ⟨text, none⟩⟩).complete = true ∧
    (produce ⟨layers, ⟨text, none⟩⟩).writer.sink.text = text ++ String.ofList added ∧
    ∀ n : Nat,
      (produce ⟨layers, ⟨text, some n⟩⟩).writer.sink.text = text ++ String.ofList (added.take n) ∧
      ((produce ⟨layers, ⟨text, some n⟩⟩).complete = false ↔ n < added.length)

theorem Script.keepsWhatFits (script : Script) : KeepsWhatFits script.perform := by
  intro layers
  refine ⟨script.added layers, fun text => ?_⟩
  obtain ⟨complete, same⟩ := script.performFrom_unlimited layers text []
  exact ⟨complete, same, fun n => script.performFrom_limited layers text n []⟩

/-- Writing an expression, a statement or an outline through any layers into a
limited sink keeps what fits, and fails exactly if that is not all. -/
theorem keepsWhatFits_of_tree :
    (∀ (style : CodeStyle) (e : Expr), KeepsWhatFits fun w => w.writeExpr style e) ∧
    (∀ (style : CodeStyle) (s : Stmt), KeepsWhatFits fun w => w.writeStmt style s) ∧
    (∀ n : Node, KeepsWhatFits fun w => w.writeOutline n) := by
  refine ⟨fun style e => ?_, fun style s => ?_, fun n => ?_⟩
  · exact (e.codeScript style).keepsWhatFits
  · exact (s.codeScript style).keepsWhatFits
  · exact n.outlineScript.keepsWhatFits

end Abacus
