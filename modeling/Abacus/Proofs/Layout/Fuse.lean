import Abacus.Proofs.Layout.Lines

/-!
# Stacked layers are one layer

The pad of an inner layer is text to the layers around it.  A layer that is due
writes its own pad in front of it, and the line has then begun for both.  So two
layers whose pads are due at the same time act as one with both pads
(`Layer.expandWith_expandWith`), provided that the inner pad does not end a line
itself, and after any text their pads are again due at the same time
(`Layer.dueAfter_expandWith`).

Layers that are opened one on top of the other are all due at the start.  The
invariant of the calls is that the flags agree (`Writer.Fused`).  It lasts up to
the first refusal, which the stack and the single layer meet at the same call
with the same text in the sink.
-/

namespace Abacus

namespace Layer

/-! ## Two layers -/

/-- The end of a text is the end of its expansion. -/
theorem dueAfter_expandWith (pad : List Char) (due : Bool) (cs : List Char) :
    dueAfter due (expandWith pad due cs) = dueAfter due cs := by
  induction cs generalizing due with
  | nil => rfl
  | cons c cs ih => rw [expandWith_cons, dueAfter_append, dueAfter, dueAfter, ih]

theorem expandWith_nil (due : Bool) (cs : List Char) : expandWith [] due cs = cs := by
  induction cs generalizing due with
  | nil => rfl
  | cons c cs ih =>
    have nothing : lead [] due c = [] := by simp [lead]
    rw [expandWith_cons, nothing, ih, List.nil_append]

/-- Two layers whose pads are due at the same time act as one with both pads. -/
theorem expandWith_expandWith (outer inner : List Char) (inline : '\n' ∉ inner) (due : Bool)
    (cs : List Char) :
    expandWith outer due (expandWith inner due cs) = expandWith (outer ++ inner) due cs := by
  induction cs generalizing due with
  | nil => rfl
  | cons c cs ih =>
    by_cases newline : c = '\n'
    · simp only [expandWith, newline, ↓reduceIte, ih]
    · -- inside a line neither layer adds anything
      have inside : expandWith outer false (c :: expandWith inner false cs) =
          c :: expandWith (outer ++ inner) false cs := by
        simp only [expandWith, newline, ↓reduceIte, Bool.false_eq_true, ih]
      cases due with
      | false => simpa only [expandWith, newline, ↓reduceIte, Bool.false_eq_true] using inside
      | true =>
        simp only [expandWith, newline, ↓reduceIte]
        rw [expandWith_start outer inner c _ inline newline, inside, List.append_assoc]

/-! ## Any number of layers -/

/-- Layers with the given pads, of which the first is outermost, and one flag. -/
def uniform (due : Bool) (pads : List String) : List Layer :=
  (pads.map fun pad => ⟨pad, due⟩).reverse

theorem uniform_cons (due : Bool) (pad : String) (pads : List String) :
    uniform due (pad :: pads) = uniform due pads ++ [⟨pad, due⟩] := by
  rw [uniform, List.map_cons, List.reverse_cons, uniform]

theorem expandAll_through (inner outer : List Layer) (cs : List Char) :
    expandAll (inner ++ outer) cs = expandAll outer (expandAll inner cs) := by
  induction inner generalizing cs with
  | nil => rfl
  | cons layer inner ih => exact ih _

theorem settleAll_through (inner outer : List Layer) (cs : List Char) :
    settleAll (inner ++ outer) cs = settleAll inner cs ++ settleAll outer (expandAll inner cs) := by
  induction inner generalizing cs with
  | nil => rfl
  | cons layer inner ih => exact congrArg (layer.settle cs :: ·) (ih _)

section

variable {pads : List String} (inline : ∀ pad ∈ pads.tail, '\n' ∉ pad.toList)

include inline

/-- Layers with one flag act as one layer with all their pads. -/
theorem expandAll_uniform (due : Bool) (cs : List Char) :
    expandAll (uniform due pads) cs = expandWith (String.join pads).toList due cs := by
  induction pads with
  | nil => exact (expandWith_nil due cs).symm
  | cons pad pads ih =>
    have joined : '\n' ∉ (String.join pads).toList := by
      rw [String.toList_join, List.mem_flatMap]
      rintro ⟨inner, there, newline⟩
      exact inline inner there newline
    have outermost : (String.join (pad :: pads)).toList =
        pad.toList ++ (String.join pads).toList := by
      rw [String.toList_join, String.toList_join, List.flatMap_cons]
    have inner : ∀ pad ∈ pads.tail, '\n' ∉ pad.toList :=
      fun inner there => inline inner (List.mem_of_mem_tail there)
    rw [uniform_cons, expandAll_through, ih inner, outermost]
    exact expandWith_expandWith _ _ joined due cs

/-- Layers with one flag have one flag after any text. -/
theorem settleAll_uniform (due : Bool) (cs : List Char) :
    settleAll (uniform due pads) cs = uniform (dueAfter due cs) pads := by
  induction pads with
  | nil => rfl
  | cons pad pads ih =>
    have inner : ∀ pad ∈ pads.tail, '\n' ∉ pad.toList :=
      fun inner there => inline inner (List.mem_of_mem_tail there)
    have outermost : settleAll [⟨pad, due⟩] (expandAll (uniform due pads) cs) =
        [⟨pad, dueAfter due cs⟩] := by
      rw [expandAll_uniform inner, settleAll, settleAll, settle, dueAfter_expandWith]
    rw [uniform_cons, uniform_cons, settleAll_through, ih inner, outermost]

end

end Layer

/-! ## One write -/

theorem Sink.accept_le_length (sink : Sink) (cs : List Char) : (sink.accept cs).1 ≤ cs.length := by
  obtain ⟨text, room⟩ := sink
  cases room with
  | none => exact Nat.le_refl _
  | some n => exact Nat.min_le_right _ _

namespace Writer

/-- The sink of a writer after a write, and the layers if nothing was refused. -/
theorem write_cases (w : Writer) (text : String) :
    (w.write text).2.sink = (w.sink.accept (Layer.expandAll w.layers text.toList)).2 ∧
    (w.write text).1 = ((w.sink.accept (Layer.expandAll w.layers text.toList)).1 ==
      (Layer.expandAll w.layers text.toList).length) ∧
    ((w.write text).1 = true → (w.write text).2.layers = Layer.settleAll w.layers text.toList) := by
  rcases Nat.lt_or_eq_of_le (w.sink.accept_le_length (Layer.expandAll w.layers text.toList)) with
    short | all
  · obtain ⟨fewer, kept⟩ := Layer.pass_of_refused w.layers w.sink text.toList short
    have refused : (w.write text).1 = false := beq_false_of_ne (Nat.ne_of_lt fewer)
    refine ⟨kept, ?_, ?_⟩
    · rw [refused, beq_false_of_ne (Nat.ne_of_lt short)]
    · rw [refused]
      nofun
  · have passed := Layer.pass_of_accepted w.layers w.sink text.toList all
    have taken : w.write text = (true, ⟨Layer.settleAll w.layers text.toList,
        (w.sink.accept (Layer.expandAll w.layers text.toList)).2⟩) := by
      simp only [Writer.write, passed, BEq.rfl]
    rw [taken, all, BEq.rfl]
    exact ⟨rfl, rfl, fun _ => rfl⟩

/-! ## A stack beside a single layer -/

/-- Opens layers in turn, the outermost first. -/
def indentAll : Writer → List String → Writer
  | w, [] => w
  | w, pad :: pads => (w.indent pad).indentAll pads

theorem indentAll_eq (w : Writer) (pads : List String) :
    w.indentAll pads = ⟨Layer.uniform true pads ++ w.layers, w.sink⟩ := by
  induction pads generalizing w with
  | nil => rfl
  | cons pad pads ih =>
    rw [indentAll, ih, Layer.uniform_cons, List.append_assoc]
    rfl

/-- Over the same sink, a stack of layers whose flags agree, and a single layer with
that flag and all their pads. -/
structure Fused (pads : List String) (stacked single : Writer) : Prop where
  /-- They have written the same. -/
  sink : stacked.sink = single.sink
  /-- One flag for all layers. -/
  flags : ∃ due, stacked.layers = Layer.uniform due pads ∧
    single.layers = [⟨String.join pads, due⟩]

/-- What the same call comes back with from a stack and from a single layer: the same
verdict and the same sink, and if nothing was refused the flags agree still. -/
structure EndAlike (pads : List String) (stacked single : Bool × Writer) : Prop where
  /-- Both are complete, or neither is. -/
  verdict : stacked.1 = single.1
  /-- They have written the same. -/
  sink : stacked.2.sink = single.2.sink
  /-- The flags agree unless something was refused. -/
  fused : stacked.1 = true → Fused pads stacked.2 single.2

/-- Goes on with a writer unless something was refused. -/
def andThen (answer : Bool × Writer) (next : Writer → Bool × Writer) : Bool × Writer :=
  if answer.1 then next answer.2 else answer

theorem writeAll_cons (w : Writer) (text : String) (texts : List String) :
    w.writeAll (text :: texts) = andThen (w.write text) fun w => w.writeAll texts := by
  rw [writeAll, andThen]
  split
  next taken => rw [taken, if_pos rfl]
  next refused => rw [refused, if_neg Bool.false_ne_true]

theorem callAll_cons (w : Writer) (c : Call) (calls : List Call) :
    w.callAll (c :: calls) = andThen (w.call c) fun w => w.callAll calls := by
  rw [callAll, andThen]
  split
  next taken => rw [taken, if_pos rfl]
  next refused => rw [refused, if_neg Bool.false_ne_true]

variable {pads : List String} {stacked single : Writer}

theorem Fused.endAlike (fused : Fused pads stacked single) :
    EndAlike pads (true, stacked) (true, single) :=
  ⟨rfl, fused.sink, fun _ => fused⟩

/-- Calls in turn end alike if each of them does. -/
theorem EndAlike.andThen {answer answer' : Bool × Writer} (alike : EndAlike pads answer answer')
    {next : Writer → Bool × Writer}
    (later : ∀ stacked single, Fused pads stacked single →
      EndAlike pads (next stacked) (next single)) :
    EndAlike pads (Writer.andThen answer next) (Writer.andThen answer' next) := by
  unfold Writer.andThen
  rw [← alike.verdict]
  split
  next taken => exact later _ _ (alike.fused taken)
  next => exact alike

section

variable (inline : ∀ pad ∈ pads.tail, '\n' ∉ pad.toList)

include inline

/-- One write: the sink gets the same text, so it is taken or refused alike. -/
theorem Fused.write (fused : Fused pads stacked single) (text : String) :
    EndAlike pads (stacked.write text) (single.write text) := by
  obtain ⟨due, layers, layer⟩ := fused.flags
  obtain ⟨sink, verdict, settled⟩ := stacked.write_cases text
  obtain ⟨sink', verdict', settled'⟩ := single.write_cases text
  have same : Layer.expandAll stacked.layers text.toList =
      Layer.expandAll single.layers text.toList := by
    rw [layers, layer, Layer.expandAll_uniform inline]
    rfl
  have written : (stacked.write text).2.sink = (single.write text).2.sink := by
    rw [sink, sink', same, fused.sink]
  have answered : (stacked.write text).1 = (single.write text).1 := by
    rw [verdict, verdict', same, fused.sink]
  refine ⟨answered, written, fun taken => ⟨written, Layer.dueAfter due text.toList, ?_, ?_⟩⟩
  · rw [settled taken, layers, Layer.settleAll_uniform inline]
  · rw [settled' (answered ▸ taken), layer]
    rfl

theorem Fused.writeAll (fused : Fused pads stacked single) (texts : List String) :
    EndAlike pads (stacked.writeAll texts) (single.writeAll texts) := by
  induction texts generalizing stacked single with
  | nil => exact fused.endAlike
  | cons text texts ih =>
    rw [writeAll_cons, writeAll_cons]
    exact (fused.write inline text).andThen fun _ _ fused => ih fused

theorem Fused.call (fused : Fused pads stacked single) (c : Call) :
    EndAlike pads (stacked.call c) (single.call c) := by
  cases c with
  | text s => exact fused.write inline s
  | char c => exact fused.write inline (String.singleton c)
  | line s => exact fused.writeAll inline [s, "\n"]
  | format pieces => exact fused.writeAll inline pieces

/-- The calls up to the first refusal, and that one too. -/
theorem Fused.callAll (fused : Fused pads stacked single) (calls : List Call) :
    EndAlike pads (stacked.callAll calls) (single.callAll calls) := by
  induction calls generalizing stacked single with
  | nil => exact fused.endAlike
  | cons c calls ih =>
    rw [callAll_cons, callAll_cons]
    exact (fused.call inline c).andThen fun _ _ fused => ih fused

end

end Writer

/-- Fresh layers on top of each other act as one fresh layer with all their pads.
Whatever calls are made, the same call is the first to be refused, if any is, and the
sink is the same after it; on an unlimited sink none is.  Up to then all pads are due,
or none is.  This is so after each call, since the calls are any. -/
theorem indentAll_eq_indent_join (pads : List String)
    (inline : ∀ pad ∈ pads.tail, '\n' ∉ pad.toList) (sink : Sink) (calls : List Call) :
    ((Writer.indentAll ⟨[], sink⟩ pads).callAll calls).1 =
      ((Writer.indent ⟨[], sink⟩ (String.join pads)).callAll calls).1 ∧
    ((Writer.indentAll ⟨[], sink⟩ pads).callAll calls).2.sink =
      ((Writer.indent ⟨[], sink⟩ (String.join pads)).callAll calls).2.sink ∧
    (sink.room = none → ((Writer.indentAll ⟨[], sink⟩ pads).callAll calls).1 = true) ∧
    (((Writer.indentAll ⟨[], sink⟩ pads).callAll calls).1 = true → ∃ due : Bool,
      ((Writer.indentAll ⟨[], sink⟩ pads).callAll calls).2.layers =
        (pads.map fun pad => ⟨pad, due⟩).reverse ∧
      ((Writer.indent ⟨[], sink⟩ (String.join pads)).callAll calls).2.layers =
        [⟨String.join pads, due⟩]) := by
  have fresh : Writer.Fused pads (Writer.indentAll ⟨[], sink⟩ pads)
      (Writer.indent ⟨[], sink⟩ (String.join pads)) := by
    rw [Writer.indentAll_eq]
    exact ⟨rfl, true, List.append_nil _, rfl⟩
  obtain ⟨verdict, written, fused⟩ := fresh.callAll inline calls
  refine ⟨verdict, written, fun unlimited => ?_, fun taken => (fused taken).flags⟩
  obtain ⟨text, room⟩ := sink
  cases unlimited
  rw [Writer.indentAll_eq, Writer.callAll_unlimited]

/-- Three layers, the one in the middle without a pad and the outermost with an end of
line in its own.  The last call is cut inside the pads of the third line. -/
theorem indentAll_eq_indent_join_cutInPad :
    (∀ pad ∈ ["*\n", "", "--"].tail, '\n' ∉ pad.toList) ∧
    ((Writer.indentAll ⟨[], ⟨"x", some 15⟩⟩ ["*\n", "", "--"]).callAll
        [.text "a\n", .line "", .text "b", .char '\n', .format ["c", "d"]]).2.sink.text =
      "x*\n--a\n\n*\n--b\n*\n" := by
  have inline : ∀ pad ∈ ["*\n", "", "--"].tail, '\n' ∉ pad.toList := by decide
  have single : ((Writer.indent ⟨[], ⟨"x", some 15⟩⟩ (String.join ["*\n", "", "--"])).callAll
      [.text "a\n", .line "", .text "b", .char '\n', .format ["c", "d"]]).2.sink.text =
        "x*\n--a\n\n*\n--b\n*\n" := by decide
  exact ⟨inline, (congrArg Sink.text (indentAll_eq_indent_join _ inline _ _).2.1).trans single⟩

end Abacus
