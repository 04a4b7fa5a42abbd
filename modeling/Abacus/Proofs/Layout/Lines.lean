import Abacus.Proofs.Layout.Stream

/-!
# A layer works line by line

What one layer does to a text is a statement about its lines: each line that
has a character gets the pad in front, and the blank ones stay as they are
(`padLines`).  The layer itself sees no lines.  It sees calls, each with some
piece of the text, and remembers one flag between them.  The flag is the whole
invariant: after any calls it says whether the text so far is at the start of a
line (`Layer.dueAfter_eq_true_iff`), so the lines come out right however they
were cut.
-/

namespace Abacus

/-! ## Calls -/

/-- One call on a writer. -/
inductive Call where
  /-- Write a text. -/
  | text (written : String)
  /-- Write a character. -/
  | char (written : Char)
  /-- Write a text and end the line. -/
  | line (written : String)
  /-- Write the pieces of a format in turn. -/
  | format (pieces : List String)

/-- The characters that a call writes. -/
def Call.written : Call → List Char
  | .text s => s.toList
  | .char c => [c]
  | .line s => s.toList ++ ['\n']
  | .format pieces => pieces.flatMap String.toList

/-- Carries out a call. -/
def Writer.call (w : Writer) : Call → Bool × Writer
  | .text s => w.write s
  | .char c => w.write (String.singleton c)
  | .line s => w.writeLine s
  | .format pieces => w.writeAll pieces

/-- Carries out calls in turn, up to the first that fails. -/
def Writer.callAll : Writer → List Call → Bool × Writer
  | w, [] => (true, w)
  | w, c :: calls =>
    match w.call c with
    | (true, w) => w.callAll calls
    | (false, w) => (false, w)

theorem Writer.writeAll_unlimited (layers : List Layer) (text : String) (texts : List String) :
    Writer.writeAll ⟨layers, ⟨text, none⟩⟩ texts =
      (true, ⟨Layer.settleAll layers (texts.flatMap String.toList),
        ⟨text ++ String.ofList (Layer.expandAll layers (texts.flatMap String.toList)), none⟩⟩) := by
  induction texts generalizing layers text with
  | nil => simp [Writer.writeAll]
  | cons t texts ih =>
    simp only [Writer.writeAll, Writer.write_unlimited]
    rw [ih, List.flatMap_cons, Layer.settleAll_append, Layer.expandAll_append,
      String.ofList_append, String.append_assoc]

theorem Writer.call_unlimited (layers : List Layer) (text : String) (c : Call) :
    Writer.call ⟨layers, ⟨text, none⟩⟩ c =
      (true, ⟨Layer.settleAll layers c.written,
        ⟨text ++ String.ofList (Layer.expandAll layers c.written), none⟩⟩) := by
  cases c with
  | text s => exact Writer.write_unlimited layers text s
  | char c =>
    rw [Writer.call, Writer.write_unlimited, String.toList_singleton]
    rfl
  | line s =>
    have joined : [s, "\n"].flatMap String.toList = s.toList ++ ['\n'] := by simp
    rw [Writer.call, Writer.writeLine, Writer.writeAll_unlimited, joined]
    rfl
  | format pieces => exact Writer.writeAll_unlimited layers text pieces

/-- Calls do to any layers over an unlimited sink what their texts together do. -/
theorem Writer.callAll_unlimited (layers : List Layer) (text : String) (calls : List Call) :
    Writer.callAll ⟨layers, ⟨text, none⟩⟩ calls =
      (true, ⟨Layer.settleAll layers (calls.flatMap Call.written),
        ⟨text ++ String.ofList (Layer.expandAll layers (calls.flatMap Call.written)), none⟩⟩) := by
  induction calls generalizing layers text with
  | nil => simp [Writer.callAll]
  | cons c calls ih =>
    simp only [Writer.callAll, Writer.call_unlimited]
    rw [ih, List.flatMap_cons, Layer.settleAll_append, Layer.expandAll_append,
      String.ofList_append, String.append_assoc]

/-! ## Lines -/

/-- A line with the pad in front, unless it is blank. -/
def padLine (pad line : List Char) : List Char := if line = [] then [] else pad ++ line

/-- A text with the pad in front of each of its lines that is not blank. -/
def padLines (pad text : List Char) : List Char :=
  ['\n'].intercalate ((text.splitOn '\n').map (padLine pad))

/-- The first line of a text gets the pad only if it is due, and the others always. -/
theorem Layer.expandWith_of_splitOn (pad : List Char) (due : Bool) (cs line : List Char)
    (lines : List (List Char)) (split : cs.splitOn '\n' = line :: lines) :
    expandWith pad due cs =
      ['\n'].intercalate ((if due then padLine pad line else line) :: lines.map (padLine pad)) := by
  induction cs generalizing due line lines with
  | nil =>
    rw [List.splitOn_nil] at split
    cases split
    cases due <;> rfl
  | cons c cs ih =>
    -- the lines of the remaining text, of which `c` either starts the first or ends one before it
    obtain ⟨next, others, hnext⟩ := List.exists_cons_of_ne_nil (List.splitOn_ne_nil '\n' cs)
    rw [List.splitOn_cons_eq_if_modifyHead, hnext] at split
    by_cases newline : c = '\n'
    · subst newline
      rw [if_pos BEq.rfl] at split
      cases split
      have blank : (if due then padLine pad [] else []) = [] := by cases due <;> rfl
      rw [expandWith_cons, ih _ _ _ hnext, blank, List.map_cons, List.intercalate_cons_cons]
      simp [lead]
    · rw [if_neg (by simpa using newline), List.modifyHead_cons] at split
      cases split
      have inside : (c == '\n') = false := beq_false_of_ne newline
      have started : (if due then padLine pad (c :: next) else c :: next) =
          lead pad due c ++ c :: next := by
        cases due <;> simp [padLine, lead, newline]
      rw [expandWith_cons, inside, ih _ _ _ hnext, started]
      cases lines with
      | nil => simp
      | cons other lines =>
        rw [List.map_cons, List.intercalate_cons_cons, List.intercalate_cons_cons]
        simp

theorem Layer.expandWith_true (pad cs : List Char) : expandWith pad true cs = padLines pad cs := by
  obtain ⟨line, lines, split⟩ := List.exists_cons_of_ne_nil (List.splitOn_ne_nil '\n' cs)
  rw [expandWith_of_splitOn pad true cs line lines split, padLines, split]
  rfl

/-- Inside a line nothing is added. -/
theorem Layer.expandWith_inside (pad cs : List Char) (inside : '\n' ∉ cs) :
    expandWith pad false cs = cs ∧ dueAfter false cs = false := by
  induction cs with
  | nil => exact ⟨rfl, rfl⟩
  | cons c cs ih =>
    rw [List.mem_cons, not_or] at inside
    obtain ⟨here, there⟩ := inside
    obtain ⟨same, still⟩ := ih there
    have inner : (c == '\n') = false := beq_false_of_ne (Ne.symm here)
    rw [expandWith_cons, dueAfter, inner, same, still]
    exact ⟨rfl, rfl⟩

/-- A stretch inside a line passes through, and the rest goes on inside the line. -/
theorem Layer.expandWith_stretch (pad stretch cs : List Char) (inside : '\n' ∉ stretch) :
    expandWith pad false (stretch ++ cs) = stretch ++ expandWith pad false cs := by
  obtain ⟨same, still⟩ := expandWith_inside pad stretch inside
  rw [expandWith_append, same, still]

theorem Layer.expandWith_due (pad : List Char) (c : Char) (cs : List Char) (visible : c ≠ '\n') :
    expandWith pad true (c :: cs) = pad ++ expandWith pad false (c :: cs) := by
  simp [expandWith, visible]

/-- A pad that is due stands in front of the first stretch of a line, which has a character. -/
theorem Layer.expandWith_start (pad stretch : List Char) (c : Char) (cs : List Char)
    (inside : '\n' ∉ stretch) (visible : c ≠ '\n') :
    expandWith pad true (stretch ++ c :: cs) =
      pad ++ (stretch ++ expandWith pad false (c :: cs)) := by
  -- it is due in front of the stretch if that has a character, and in front of `c` otherwise
  cases stretch with
  | nil => exact expandWith_due pad c cs visible
  | cons d ds =>
    have different : d ≠ '\n' := Ne.symm (List.ne_of_not_mem_cons inside)
    rw [← expandWith_stretch pad (d :: ds) (c :: cs) inside, List.cons_append]
    exact expandWith_due pad d _ different

/-- A text whose lines all have a character gets the pad in front of each. -/
theorem Layer.expandWith_lines (pad : List Char) (lines : List (List Char))
    (full : ∀ line ∈ lines, line ≠ [] ∧ '\n' ∉ line) :
    expandWith pad true (lines.flatMap fun line => line ++ ['\n']) =
      lines.flatMap fun line => pad ++ line ++ ['\n'] := by
  induction lines with
  | nil => rfl
  | cons line lines ih =>
    obtain ⟨first, others⟩ := List.forall_mem_cons.mp full
    obtain ⟨begins, inside⟩ := first
    obtain ⟨c, cs, rfl⟩ := List.exists_cons_of_ne_nil begins
    have visible : c ≠ '\n' := Ne.symm (List.ne_of_not_mem_cons inside)
    have padded : ∀ more, expandWith pad true (c :: cs ++ '\n' :: more) =
        pad ++ (c :: cs ++ '\n' :: expandWith pad true more) := by
      intro more
      rw [List.cons_append, expandWith_due pad c _ visible, ← List.cons_append,
        expandWith_stretch _ _ _ inside]
      rfl
    rw [List.flatMap_cons, List.flatMap_cons, ← ih others, List.append_assoc, List.singleton_append,
      padded, List.append_assoc, List.append_assoc, List.singleton_append]

/-- A pad is due at the start of the text and after each end of line. -/
theorem Layer.dueAfter_eq_true_iff (cs : List Char) :
    dueAfter true cs = true ↔ cs = [] ∨ cs.getLast? = some '\n' := by
  rcases List.eq_nil_or_concat cs with rfl | ⟨before, c, rfl⟩
  · simp [dueAfter]
  · rw [List.concat_eq_append, dueAfter_append]
    simp [dueAfter]

/-- Whatever calls a text is written by, a fresh layer adds it with the pad in
front of each line that is not blank, and its pad is due exactly at the start of
a line.  So calls that write the same text leave the same writer. -/
theorem callAll_eq_padLines (pad start : String) (calls : List Call) :
    (∃ due : Bool,
      ((Writer.onto start none).indent pad).callAll calls =
        (true, ⟨[⟨pad, due⟩],
          ⟨start ++ String.ofList (padLines pad.toList (calls.flatMap Call.written)), none⟩⟩) ∧
      (due = true ↔
        calls.flatMap Call.written = [] ∨
          (calls.flatMap Call.written).getLast? = some '\n')) ∧
    ∀ others : List Call, others.flatMap Call.written = calls.flatMap Call.written →
      ((Writer.onto start none).indent pad).callAll others =
        ((Writer.onto start none).indent pad).callAll calls := by
  have written : ∀ calls : List Call, ((Writer.onto start none).indent pad).callAll calls =
      (true, ⟨[⟨pad, Layer.dueAfter true (calls.flatMap Call.written)⟩],
        ⟨start ++ String.ofList (padLines pad.toList (calls.flatMap Call.written)), none⟩⟩) := by
    intro calls
    rw [Writer.onto, Writer.indent, Writer.callAll_unlimited, ← Layer.expandWith_true]
    rfl
  refine ⟨⟨_, written calls, Layer.dueAfter_eq_true_iff _⟩, fun others same => ?_⟩
  rw [written, written, same]

/-- Lines, a blank one among them, and the same text cut inside a line. -/
theorem callAll_eq_padLines_recut :
    [Call.line "a", .line "", .format ["b", "c"]].flatMap Call.written =
        [Call.text "a\n\nb", .char 'c'].flatMap Call.written ∧
      ((Writer.onto "x" none).indent "  ").callAll [.line "a", .line "", .format ["b", "c"]] =
        ((Writer.onto "x" none).indent "  ").callAll [.text "a\n\nb", .char 'c'] :=
  ⟨by decide, (callAll_eq_padLines "  " "x" [.text "a\n\nb", .char 'c']).2 _ (by decide)⟩

end Abacus
