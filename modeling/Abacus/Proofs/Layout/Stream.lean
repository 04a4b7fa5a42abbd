import Abacus.Layout.Script

/-!
# What layers do to a text

A text that goes through a stack of layers reaches the sink *expanded* by each
of them, the innermost first (`Layer.expandAll`), and leaves them *settled*:
each knows whether its pad is due (`Layer.settleAll`).  Both are additive in
the text (`Layer.expandAll_append`, `Layer.settleAll_append`), so it does not
matter how a text is cut into writes.

A write either goes through as a whole or is refused by the sink.  `Layer.pass`
tells the two apart by counting, layer by layer, how much of the text got
through.  `Layer.pass_of_accepted` and `Layer.pass_of_refused` say that the
counts are right at both ends: everything is counted exactly if the sink took
everything.  They are all that the later modules know about `Layer.pass`.

A script that closes what it opens *streams* a text (`Script.Streams`): on a
sink without limit it does to every stack of layers what one write of that text
does.
-/

namespace Abacus

namespace Layer

/-! ## One layer -/

/-- The characters that a layer puts in front of a character. -/
def lead (pad : List Char) (due : Bool) (c : Char) : List Char :=
  if due && c != '\n' then pad else []

theorem length_lead (pad : List Char) (due : Bool) (c : Char) :
    (lead pad due c).length = leadWidth pad.length due c := by
  unfold lead leadWidth
  split <;> rfl

theorem expandWith_cons (pad : List Char) (due : Bool) (c : Char) (cs : List Char) :
    expandWith pad due (c :: cs) = lead pad due c ++ c :: expandWith pad (c == '\n') cs := by
  by_cases newline : c = '\n'
  · simp [expandWith, lead, newline]
  · have inside : (c == '\n') = false := beq_false_of_ne newline
    cases due <;> simp [expandWith, lead, newline, inside]

/-- Whether the pad is due after a text that went through as a whole. -/
def dueAfter : Bool → List Char → Bool
  | due, [] => due
  | _, c :: cs => dueAfter (c == '\n') cs

theorem dueAfter_append (due : Bool) (cs ds : List Char) :
    dueAfter due (cs ++ ds) = dueAfter (dueAfter due cs) ds := by
  induction cs generalizing due with
  | nil => rfl
  | cons c cs ih => exact ih _

theorem expandWith_append (pad : List Char) (due : Bool) (cs ds : List Char) :
    expandWith pad due (cs ++ ds) =
      expandWith pad due cs ++ expandWith pad (dueAfter due cs) ds := by
  induction cs generalizing due with
  | nil => rfl
  | cons c cs ih =>
    rw [List.cons_append, expandWith_cons, expandWith_cons, ih, List.append_assoc,
      List.cons_append, dueAfter]

theorem length_expandWith_cons (pad : List Char) (due : Bool) (c : Char) (cs : List Char) :
    (expandWith pad due (c :: cs)).length =
      leadWidth pad.length due c + 1 + (expandWith pad (c == '\n') cs).length := by
  rw [expandWith_cons, List.length_append, length_lead, List.length_cons]
  omega

/-- A text of which every expanded character was taken went through. -/
theorem countWith_of_le (pad : List Char) (due : Bool) (cs : List Char) (taken : Nat)
    (enough : (expandWith pad due cs).length ≤ taken) :
    countWith pad.length due cs taken = cs.length := by
  induction cs generalizing due taken with
  | nil => rfl
  | cons c cs ih =>
    rw [length_expandWith_cons] at enough
    rw [countWith, if_neg (by omega), ih _ _ (by omega), List.length_cons]

/-- A text of which some expanded character was refused did not go through. -/
theorem countWith_lt_of_lt (pad : List Char) (due : Bool) (cs : List Char) (taken : Nat)
    (short : taken < (expandWith pad due cs).length) :
    countWith pad.length due cs taken < cs.length := by
  induction cs generalizing due taken with
  | nil => exact absurd short (Nat.not_lt_zero taken)
  | cons c cs ih =>
    rw [length_expandWith_cons] at short
    rw [countWith]
    split
    · exact Nat.zero_lt_succ _
    · have := ih (c == '\n') (taken - leadWidth pad.length due c - 1) (by omega)
      rw [List.length_cons]
      omega

theorem dueWith_of_le (pad : List Char) (due : Bool) (cs : List Char) (taken : Nat)
    (enough : (expandWith pad due cs).length ≤ taken) :
    dueWith pad.length due cs taken = dueAfter due cs := by
  induction cs generalizing due taken with
  | nil => rfl
  | cons c cs ih =>
    rw [length_expandWith_cons] at enough
    rw [dueWith, if_neg (by omega), if_neg (by omega), ih _ _ (by omega), dueAfter]

/-- The layer after a text that went through as a whole. -/
def settle (layer : Layer) (cs : List Char) : Layer :=
  { layer with due := dueAfter layer.due cs }

theorem length_pad (layer : Layer) : layer.pad.length = layer.pad.toList.length :=
  String.length_toList.symm

theorem count_of_le (layer : Layer) (cs : List Char) (taken : Nat)
    (enough : (layer.expand cs).length ≤ taken) : layer.count cs taken = cs.length := by
  rw [count, length_pad]
  exact countWith_of_le _ _ _ _ enough

theorem count_lt_of_lt (layer : Layer) (cs : List Char) (taken : Nat)
    (short : taken < (layer.expand cs).length) : layer.count cs taken < cs.length := by
  rw [count, length_pad]
  exact countWith_lt_of_lt _ _ _ _ short

theorem after_of_le (layer : Layer) (cs : List Char) (taken : Nat)
    (enough : (layer.expand cs).length ≤ taken) : layer.after cs taken = layer.settle cs := by
  rw [after, settle, length_pad, dueWith_of_le _ _ _ _ enough]

/-! ## A stack of layers -/

/-- What a stack of layers passes on for a text, the innermost layer first. -/
def expandAll : List Layer → List Char → List Char
  | [], cs => cs
  | layer :: outer, cs => expandAll outer (layer.expand cs)

/-- A stack of layers after a text that went through as a whole. -/
def settleAll : List Layer → List Char → List Layer
  | [], _ => []
  | layer :: outer, cs => layer.settle cs :: settleAll outer (layer.expand cs)

theorem expand_append (layer : Layer) (cs ds : List Char) :
    layer.expand (cs ++ ds) = layer.expand cs ++ (layer.settle cs).expand ds :=
  expandWith_append _ _ cs ds

theorem expandAll_append (layers : List Layer) (cs ds : List Char) :
    expandAll layers (cs ++ ds) = expandAll layers cs ++ expandAll (settleAll layers cs) ds := by
  induction layers generalizing cs ds with
  | nil => rfl
  | cons layer outer ih => rw [expandAll, expand_append, ih, expandAll, settleAll, expandAll]

theorem settleAll_append (layers : List Layer) (cs ds : List Char) :
    settleAll layers (cs ++ ds) = settleAll (settleAll layers cs) ds := by
  induction layers generalizing cs ds with
  | nil => rfl
  | cons layer outer ih =>
    rw [settleAll, expand_append, ih, settleAll, settleAll]
    simp only [settle, dueAfter_append]

@[simp] theorem expandAll_nil (layers : List Layer) : expandAll layers [] = [] := by
  induction layers with
  | nil => rfl
  | cons layer outer ih => exact ih

@[simp] theorem settleAll_nil (layers : List Layer) : settleAll layers [] = layers := by
  induction layers with
  | nil => rfl
  | cons layer outer ih => exact congrArg (layer :: ·) ih

/-- If the sink takes everything, everything went through and all layers are settled. -/
theorem pass_of_accepted (layers : List Layer) (sink : Sink) (cs : List Char)
    (all : (sink.accept (expandAll layers cs)).1 = (expandAll layers cs).length) :
    pass layers sink cs =
      (cs.length, settleAll layers cs, (sink.accept (expandAll layers cs)).2) := by
  induction layers generalizing cs with
  | nil => exact Prod.ext all rfl
  | cons layer outer ih =>
    rw [pass, ih (layer.expand cs) all]
    simp only [expandAll, settleAll]
    rw [count_of_le layer cs _ (Nat.le_refl _), after_of_le layer cs _ (Nat.le_refl _)]

/-- If the sink refuses a character, the text did not go through, and the sink
has what fitted of the expanded text. -/
theorem pass_of_refused (layers : List Layer) (sink : Sink) (cs : List Char)
    (short : (sink.accept (expandAll layers cs)).1 < (expandAll layers cs).length) :
    (pass layers sink cs).1 < cs.length ∧
      (pass layers sink cs).2.2 = (sink.accept (expandAll layers cs)).2 := by
  induction layers generalizing cs with
  | nil => exact ⟨short, rfl⟩
  | cons layer outer ih =>
    obtain ⟨fewer, same⟩ := ih (layer.expand cs) short
    rw [pass]
    exact ⟨count_lt_of_lt layer cs _ fewer, same⟩

end Layer

/-! ## Writing without a limit -/

theorem Sink.accept_unlimited (text : String) (cs : List Char) :
    Sink.accept ⟨text, none⟩ cs = (cs.length, ⟨text ++ String.ofList cs, none⟩) := rfl

/-- A write on a sink without limit goes through. -/
theorem Writer.write_unlimited (layers : List Layer) (text written : String) :
    Writer.write ⟨layers, ⟨text, none⟩⟩ written =
      (true, ⟨Layer.settleAll layers written.toList,
        ⟨text ++ String.ofList (Layer.expandAll layers written.toList), none⟩⟩) := by
  have passed := Layer.pass_of_accepted layers ⟨text, none⟩ written.toList rfl
  rw [Sink.accept_unlimited] at passed
  simp only [Writer.write, passed, BEq.rfl]

namespace Script

/-! ## Scripts that stream a text -/

/-- On a sink without limit the script does to any layers what one write of the
text does, and tells some marks on the way. -/
def Streams (script : Script) (cs : List Char) : Prop :=
  ∃ told : List Mark, ∀ (rest : Script) (layers : List Layer) (text : String) (marks : List Mark),
    performFrom (script ++ rest) ⟨layers, ⟨text, none⟩⟩ marks =
      performFrom rest
        ⟨Layer.settleAll layers cs, ⟨text ++ String.ofList (Layer.expandAll layers cs), none⟩⟩
        (told ++ marks)

theorem streams_nil : Streams [] [] := by
  refine ⟨[], fun rest layers text marks => ?_⟩
  simp

theorem streams_write (text : String) : Streams [.write text] text.toList := by
  refine ⟨[], fun rest layers before marks => ?_⟩
  rw [List.singleton_append, performFrom, Writer.write_unlimited]
  rfl

theorem streams_enter (kind : String) : Streams [.enter kind] [] := by
  refine ⟨[.enter kind], fun rest layers text marks => ?_⟩
  rw [List.singleton_append, performFrom]
  simp

theorem streams_leave : Streams [.leave] [] := by
  refine ⟨[.leave], fun rest layers text marks => ?_⟩
  rw [List.singleton_append, performFrom]
  simp

theorem Streams.append {script more : Script} {cs ds : List Char}
    (first : script.Streams cs) (second : more.Streams ds) :
    Streams (script ++ more) (cs ++ ds) := by
  obtain ⟨told, hfirst⟩ := first
  obtain ⟨told', hsecond⟩ := second
  refine ⟨told' ++ told, fun rest layers text marks => ?_⟩
  rw [List.append_assoc, hfirst, hsecond, Layer.settleAll_append, Layer.expandAll_append,
    String.ofList_append, String.append_assoc, List.append_assoc]

theorem streams_flatMap {α : Type} (items : List α) (script : α → Script) (chars : α → List Char)
    (each : ∀ item ∈ items, (script item).Streams (chars item)) :
    Streams (items.flatMap script) (items.flatMap chars) := by
  induction items with
  | nil => exact streams_nil
  | cons item items ih =>
    have first := each item (List.mem_cons_self ..)
    have others := ih fun other there => each other (List.mem_cons_of_mem _ there)
    exact first.append others

/-- Marks around a script do not change what it streams. -/
theorem Streams.part {script : Script} {cs : List Char} (inner : script.Streams cs)
    (kind : String) : Streams (.enter kind :: script ++ [.leave]) cs := by
  have marked := ((streams_enter kind).append inner).append streams_leave
  rwa [List.nil_append, List.append_nil] at marked

/-- Inside a layer of its own a script streams the expanded text. -/
theorem Streams.indent {script : Script} {cs : List Char} (inner : script.Streams cs)
    (pad : String) :
    Streams (.indent pad :: script ++ [.dedent]) (Layer.expandWith pad.toList true cs) := by
  obtain ⟨told, hinner⟩ := inner
  refine ⟨told, fun rest layers text marks => ?_⟩
  have regroup : .indent pad :: script ++ [.dedent] ++ rest =
      .indent pad :: (script ++ .dedent :: rest) := by simp
  rw [regroup, performFrom, Writer.indent, hinner, performFrom]
  rfl

/-- The text of a script that streams one. -/
theorem Streams.text {script : Script} {cs : List Char} (streams : script.Streams cs) :
    script.text = String.ofList cs := by
  obtain ⟨told, h⟩ := streams
  have performed := h [] [] "" []
  rw [List.append_nil] at performed
  rw [Script.text, perform, Writer.onto, performed, performFrom]
  exact String.empty_append

theorem Streams.toList_text {script : Script} {cs : List Char} (streams : script.Streams cs) :
    script.text.toList = cs := by
  rw [streams.text, String.toList_ofList]

end Script

end Abacus
