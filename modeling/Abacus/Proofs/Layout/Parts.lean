import Abacus.Layout.Script

/-!
# The parts of a script

A performance tells where the parts of its script begin and end.  If the script
closes what it opens (`Script.Balanced`), so do the marks, and this survives a
refusal at any character.  The script is then abandoned, and what is open is
closed by the closing steps that are still to come.  Those that belong to parts
which were never opened have to be passed over, and they are, since a balanced
stretch of the remaining script is passed over as a whole
(`Script.Balanced.abandon`).

So the marks of a performance are those of its script, or a *cut* of them: nested
as well, and with the first kinds only (`Script.Balanced.perform`).
-/

namespace Abacus

theorem enclosed_append {α : Type} (opening closing : α) (inner rest : List α) :
    opening :: inner ++ [closing] ++ rest = opening :: (inner ++ closing :: rest) := by
  simp

namespace Mark

/-! ## Marks -/

/-- The kinds of the parts, in the order in which they begin. -/
def entered : List Mark → List String
  | [] => []
  | .enter kind :: later => kind :: entered later
  | .leave :: later => entered later

/-- Every part that begins ends, and the parts within it end before it does. -/
inductive Nested : List Mark → Prop where
  | nil : Nested []
  | append {first later : List Mark} : Nested first → Nested later → Nested (first ++ later)
  | part (kind : String) {inner : List Mark} :
    Nested inner → Nested (.enter kind :: inner ++ [.leave])

/-- Marks that were told before a refusal, instead of the whole. -/
structure CutOf (told whole : List Mark) : Prop where
  /-- They are nested all the same. -/
  nested : Nested told
  /-- No part is left out before the refusal, and none begins after it. -/
  kinds : entered told <+: entered whole

@[simp] theorem entered_append (first later : List Mark) :
    entered (first ++ later) = entered first ++ entered later := by
  induction first with
  | nil => rfl
  | cons mark first ih =>
    cases mark with
    | enter kind => exact congrArg (kind :: ·) ih
    | leave => exact ih

theorem entered_flatMap {α : Type} (items : List α) (marks : α → List Mark) :
    entered (items.flatMap marks) = items.flatMap fun item => entered (marks item) := by
  induction items with
  | nil => rfl
  | cons item items ih => rw [List.flatMap_cons, entered_append, ih, List.flatMap_cons]

theorem entered_part (kind : String) (inner : List Mark) :
    entered (.enter kind :: inner ++ [.leave]) = kind :: entered inner := by
  rw [List.cons_append, entered, entered_append]
  exact congrArg (kind :: ·) (List.append_nil _)

namespace CutOf

variable {told whole first later : List Mark}

/-- Nothing was told. -/
theorem nothing : CutOf [] whole := ⟨.nil, List.nil_prefix⟩

theorem append_right (cut : CutOf told whole) (later : List Mark) :
    CutOf told (whole ++ later) := by
  refine ⟨cut.nested, ?_⟩
  rw [entered_append]
  exact cut.kinds.trans (List.prefix_append _ _)

theorem append_left (nested : Nested first) (cut : CutOf told later) :
    CutOf (first ++ told) (first ++ later) := by
  refine ⟨nested.append cut.nested, ?_⟩
  rw [entered_append, entered_append]
  exact (List.prefix_append_right_inj _).mpr cut.kinds

theorem part (kind : String) (cut : CutOf told whole) :
    CutOf (.enter kind :: told ++ [.leave]) (.enter kind :: whole ++ [.leave]) := by
  refine ⟨cut.nested.part kind, ?_⟩
  rw [entered_part, entered_part]
  exact (List.prefix_cons_inj kind).mpr cut.kinds

end CutOf

end Mark

namespace Script

/-! ## Balanced scripts -/

/-- The script closes the layers and parts that it opens. -/
inductive Balanced : Script → Prop where
  | nil : Balanced []
  | write (text : String) : Balanced [.write text]
  | append {script more : Script} : Balanced script → Balanced more → Balanced (script ++ more)
  | layer (pad : String) {script : Script} :
    Balanced script → Balanced (.indent pad :: script ++ [.dedent])
  | part (kind : String) {script : Script} :
    Balanced script → Balanced (.enter kind :: script ++ [.leave])

/-- The marks of a script. -/
def marks : Script → List Mark
  | [] => []
  | .write _ :: rest => marks rest
  | .indent _ :: rest => marks rest
  | .dedent :: rest => marks rest
  | .enter kind :: rest => .enter kind :: marks rest
  | .leave :: rest => .leave :: marks rest

@[simp] theorem marks_append (script more : Script) :
    marks (script ++ more) = marks script ++ marks more := by
  induction script with
  | nil => rfl
  | cons step script ih =>
    cases step with
    | write text => exact ih
    | indent pad => exact ih
    | dedent => exact ih
    | enter kind => exact congrArg (.enter kind :: ·) ih
    | leave => exact congrArg (.leave :: ·) ih

theorem marks_layer (pad : String) (script : Script) :
    marks (.indent pad :: script ++ [.dedent]) = marks script := by
  rw [List.cons_append, marks, marks_append]
  exact List.append_nil _

theorem marks_part (kind : String) (script : Script) :
    marks (.enter kind :: script ++ [.leave]) = .enter kind :: marks script ++ [.leave] := by
  rw [List.cons_append, marks, marks_append]
  rfl

namespace Balanced

variable {script : Script}

theorem nested (balanced : script.Balanced) : Mark.Nested script.marks := by
  induction balanced with
  | nil => exact .nil
  | write text => exact .nil
  | append _ _ first later =>
    rw [marks_append]
    exact first.append later
  | layer pad _ inner =>
    rw [marks_layer]
    exact inner
  | part kind _ inner =>
    rw [marks_part]
    exact inner.part kind

/-- What was not begun is passed over. -/
theorem abandon (balanced : script.Balanced) (rest : Script) (unopened : Nat) (w : Writer)
    (told : List Mark) :
    Script.abandon (script ++ rest) unopened w told = Script.abandon rest unopened w told := by
  induction balanced generalizing rest unopened with
  | nil => rfl
  | write text => rfl
  | append _ _ first later => rw [List.append_assoc, first, later]
  | layer pad _ inner =>
    rw [enclosed_append, Script.abandon, inner]
    rfl
  | part kind _ inner =>
    rw [enclosed_append, Script.abandon, inner]
    rfl

/-- A balanced script is carried out and tells its marks, or it is abandoned and
tells a cut of them. -/
theorem perform (balanced : script.Balanced) (rest : Script) (w : Writer) (before : List Mark) :
    (∃ w', performFrom (script ++ rest) w before =
      performFrom rest w' (script.marks.reverse ++ before)) ∨
    ∃ w' told, Mark.CutOf told script.marks ∧
      performFrom (script ++ rest) w before =
        Script.abandon rest 0 w' (told.reverse ++ before) := by
  induction balanced generalizing rest w before with
  | nil => exact .inl ⟨w, rfl⟩
  | write text =>
    rw [List.singleton_append, performFrom]
    match w.write text with
    | (true, w') => exact .inl ⟨w', rfl⟩
    | (false, w') => exact .inr ⟨w', [], .nothing, rfl⟩
  | @append script more first later ihfirst ihlater =>
    rw [List.append_assoc, marks_append]
    rcases ihfirst (more ++ rest) w before with ⟨w₁, done⟩ | ⟨w₁, told, cut, left⟩
    · rw [done]
      rcases ihlater rest w₁ (script.marks.reverse ++ before) with
        ⟨w₂, done⟩ | ⟨w₂, told, cut, left⟩
      · refine .inl ⟨w₂, ?_⟩
        rw [done, List.reverse_append, List.append_assoc]
      · refine .inr ⟨w₂, _, cut.append_left first.nested, ?_⟩
        rw [left, List.reverse_append, List.append_assoc]
    · refine .inr ⟨w₁, told, cut.append_right _, ?_⟩
      rw [left, later.abandon]
  | @layer pad script _ ih =>
    rw [enclosed_append, performFrom, marks_layer]
    rcases ih (.dedent :: rest) (w.indent pad) before with ⟨w', done⟩ | ⟨w', told, cut, left⟩
    · exact .inl ⟨w'.dedent, done⟩
    · exact .inr ⟨w'.dedent, told, cut, left⟩
  | @part kind script _ ih =>
    rw [enclosed_append, performFrom, marks_part]
    have reverse : ∀ inner, (Mark.enter kind :: inner ++ [Mark.leave]).reverse ++ before =
        .leave :: (inner.reverse ++ .enter kind :: before) := by simp
    rcases ih (.leave :: rest) w (.enter kind :: before) with ⟨w', done⟩ | ⟨w', told, cut, left⟩
    · refine .inl ⟨w', ?_⟩
      rw [done, performFrom, reverse]
    · refine .inr ⟨w', _, cut.part kind, ?_⟩
      rw [left, Script.abandon, reverse]

end Balanced

/-! ## What a script tells -/

/-- The script closes what it opens, and these are its marks. -/
structure Tells (script : Script) (told : List Mark) : Prop where
  /-- It is balanced. -/
  balanced : script.Balanced
  /-- Its marks. -/
  marks_eq : script.marks = told

namespace Tells

variable {script more : Script} {told later : List Mark}

theorem write (text : String) : Tells [.write text] [] := ⟨.write text, rfl⟩

theorem append (first : script.Tells told) (second : more.Tells later) :
    Tells (script ++ more) (told ++ later) := by
  refine ⟨first.balanced.append second.balanced, ?_⟩
  rw [marks_append, first.marks_eq, second.marks_eq]

theorem layer (inner : script.Tells told) (pad : String) :
    Tells (.indent pad :: script ++ [.dedent]) told := by
  refine ⟨inner.balanced.layer pad, ?_⟩
  rw [marks_layer, inner.marks_eq]

theorem part (inner : script.Tells told) (kind : String) :
    Tells (.enter kind :: script ++ [.leave]) (.enter kind :: told ++ [.leave]) := by
  refine ⟨inner.balanced.part kind, ?_⟩
  rw [marks_part, inner.marks_eq]

theorem flatMap {α : Type} (items : List α) (scripts : α → Script) (marks : α → List Mark)
    (each : ∀ item ∈ items, (scripts item).Tells (marks item)) :
    Tells (items.flatMap scripts) (items.flatMap marks) := by
  induction items with
  | nil => exact ⟨.nil, rfl⟩
  | cons item items ih =>
    obtain ⟨first, others⟩ := List.forall_mem_cons.mp each
    exact first.append (ih others)

/-- A performance tells a cut of the marks of its script, and all of them if it is complete. -/
theorem perform (tells : script.Tells told) (w : Writer) :
    Mark.CutOf (script.perform w).marks told ∧
      ((script.perform w).complete = true → (script.perform w).marks = told) := by
  obtain ⟨balanced, rfl⟩ := tells
  have ends := balanced.perform [] w []
  rw [List.append_nil] at ends
  rcases ends with ⟨w', done⟩ | ⟨w', cutShort, cut, left⟩
  · have whole : (script.perform w).marks = script.marks := by
      rw [Script.perform, done, performFrom, List.append_nil, List.reverse_reverse]
    rw [whole]
    exact ⟨⟨balanced.nested, List.prefix_rfl⟩, fun _ => rfl⟩
  · rw [Script.perform, left, Script.abandon, List.append_nil, List.reverse_reverse]
    exact ⟨cut, nofun⟩

end Tells

end Script

end Abacus
