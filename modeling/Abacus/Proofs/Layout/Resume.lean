import Abacus.Proofs.Layout.Limit

/-!
# Going on after a refusal

A write that was refused can be made good.  The sink is given room, and the part of
the text that has not reached it is written.  Through one layer this leaves what one
write would have left that met no refusal, unless the refusal fell strictly inside a
pad.  Such a pad stays due as a whole, so the characters of it that did reach the sink
are there once more.

To say which characters have reached the sink, an expanded text is read as *glyphs*.
Each is a character that knows whether it comes from the pad or from the text.

A refusal strikes at some character of the text (`Layer.StopsAt`).  What is before that
character went through, and so did some part of the pad in front of it, which may be
nothing or all of it.  The second write starts with this character.  It puts the whole
pad in front of it if some of the pad was missing, and nothing otherwise
(`Layer.StopsAt.expand_again`).  It leaves the flag that the text as a whole leaves,
since the last character alone decides about that.
-/

namespace Abacus

/-! ## Glyphs -/

/-- A character on its way to the sink, with where it comes from. -/
inductive Glyph where
  /-- The character at a place of the pad. -/
  | pad (place : Nat) (c : Char)
  /-- A character of the text. -/
  | text (c : Char)
  deriving DecidableEq

/-- The character itself. -/
def Glyph.char : Glyph → Char
  | .pad _ c => c
  | .text c => c

/-- The character, if it is one of the text. -/
def Glyph.text? : Glyph → Option Char
  | .pad _ _ => none
  | .text c => some c

namespace Layer

/-- The glyphs that a layer puts in front of a character. -/
def leadGlyphs (pad : List Char) (due : Bool) (c : Char) : List Glyph :=
  (lead pad due c).mapIdx .pad

/-- What a layer with the given pad passes on for a text, as glyphs. -/
def glyphsWith (pad : List Char) : Bool → List Char → List Glyph
  | _, [] => []
  | due, c :: cs => leadGlyphs pad due c ++ .text c :: glyphsWith pad (c == '\n') cs

/-- What a layer passes on for a text, as glyphs. -/
def glyphs (layer : Layer) (s : String) : List Glyph :=
  glyphsWith layer.pad.toList layer.due s.toList

/-- The part of a text that has not reached the sink, if `taken` glyphs have. -/
def unreached (layer : Layer) (s : String) (taken : Nat) : String :=
  String.ofList (((layer.glyphs s).drop taken).filterMap Glyph.text?)

/-- Behind the first `taken` glyphs of a text comes one strictly inside a pad, with
`j` characters of that pad before it. -/
def TornAt (layer : Layer) (s : String) (taken j : Nat) : Prop :=
  0 < j ∧ ∃ c, (layer.glyphs s)[taken]? = some (.pad j c)

theorem map_char_leadGlyphs (pad : List Char) (due : Bool) (c : Char) :
    (leadGlyphs pad due c).map Glyph.char = lead pad due c := by
  rw [leadGlyphs, List.mapIdx_eq_zipIdx_map, List.map_map]
  exact List.zipIdx_map_fst 0 _

theorem filterMap_text?_leadGlyphs (pad : List Char) (due : Bool) (c : Char) (part : Nat) :
    ((leadGlyphs pad due c).drop part).filterMap Glyph.text? = [] := by
  rw [List.filterMap_eq_nil_iff]
  intro glyph there
  obtain ⟨place, inside, rfl⟩ := List.mem_mapIdx.mp (List.mem_of_mem_drop there)
  rfl

/-- The glyphs of a text are the characters that the layer passes on. -/
theorem map_char_glyphsWith (pad : List Char) (due : Bool) (cs : List Char) :
    (glyphsWith pad due cs).map Glyph.char = expandWith pad due cs := by
  induction cs generalizing due with
  | nil => rfl
  | cons c cs ih =>
    rw [glyphsWith, expandWith_cons, List.map_append, List.map_cons, map_char_leadGlyphs, ih]
    rfl

/-- Without the pads they are the text. -/
theorem filterMap_text?_glyphsWith (pad : List Char) (due : Bool) (cs : List Char) :
    (glyphsWith pad due cs).filterMap Glyph.text? = cs := by
  induction cs generalizing due with
  | nil => rfl
  | cons c cs ih =>
    have pads := filterMap_text?_leadGlyphs pad due c 0
    rw [List.drop_zero] at pads
    rw [glyphsWith, List.filterMap_append, pads, List.filterMap_cons, ih]
    rfl

theorem glyphsWith_append (pad : List Char) (due : Bool) (cs ds : List Char) :
    glyphsWith pad due (cs ++ ds) =
      glyphsWith pad due cs ++ glyphsWith pad (dueAfter due cs) ds := by
  induction cs generalizing due with
  | nil => rfl
  | cons c cs ih =>
    rw [List.cons_append, glyphsWith, glyphsWith, ih, List.append_assoc, List.cons_append, dueAfter]

theorem length_glyphs (layer : Layer) (s : String) :
    (layer.glyphs s).length = (layer.expand s.toList).length := by
  rw [expand, ← map_char_glyphsWith, List.length_map, glyphs]

/-! ## Where a refusal strikes -/

/-- The first `taken` characters that are passed on for a text reach to the character
`c` of it: to what comes before `c`, and `part` of the pad in front of `c`. -/
structure StopsAt (pad : List Char) (due : Bool) (cs : List Char) (taken : Nat)
    (passed : List Char) (c : Char) (rest : List Char) (part : Nat) : Prop where
  /-- The text. -/
  text : cs = passed ++ c :: rest
  /-- The part of the pad may be nothing or all of it. -/
  part_le : part ≤ (lead pad (dueAfter due passed) c).length
  /-- What is before the character, and the part of the pad. -/
  taken : taken = (expandWith pad due passed).length + part

/-- What is taken but not all of a text stops at one of its characters. -/
theorem exists_stopsAt (pad : List Char) (due : Bool) (cs : List Char) (taken : Nat)
    (short : taken < (expandWith pad due cs).length) :
    ∃ passed c rest part, StopsAt pad due cs taken passed c rest part := by
  induction cs generalizing due taken with
  | nil => exact absurd short (Nat.not_lt_zero taken)
  | cons c cs ih =>
    rw [length_expandWith_cons, ← length_lead] at short
    by_cases here : taken ≤ (lead pad due c).length
    · exact ⟨[], c, cs, taken, rfl, here, (Nat.zero_add taken).symm⟩
    · obtain ⟨passed, d, rest, part, rfl, part_le, later⟩ :=
        ih (c == '\n') (taken - (lead pad due c).length - 1) (by omega)
      refine ⟨c :: passed, d, rest, part, rfl, part_le, ?_⟩
      rw [length_expandWith_cons, ← length_lead]
      omega

theorem expand_after (layer : Layer) (cs ds : List Char) (taken : Nat) :
    (layer.after cs taken).expand ds = expandWith layer.pad.toList
      (dueWith layer.pad.toList.length layer.due cs taken) ds := by
  rw [expand, after, length_pad]

/-- Text that went through does not matter to what a refusal further on leaves. -/
theorem dueWith_append (pad : List Char) (due : Bool) (cs ds : List Char) (taken : Nat) :
    dueWith pad.length due (cs ++ ds) ((expandWith pad due cs).length + taken) =
      dueWith pad.length (dueAfter due cs) ds taken := by
  induction cs generalizing due with
  | nil => rw [List.nil_append, expandWith, List.length_nil, Nat.zero_add, dueAfter]
  | cons c cs ih =>
    have further : leadWidth pad.length due c + 1 + (expandWith pad (c == '\n') cs).length +
        taken - leadWidth pad.length due c - 1 =
          (expandWith pad (c == '\n') cs).length + taken := by omega
    rw [List.cons_append, length_expandWith_cons, dueWith, if_neg (by omega), if_neg (by omega),
      further, ih, dueAfter]

namespace StopsAt

variable {pad : List Char} {due : Bool} {cs : List Char} {taken : Nat} {passed : List Char}
  {c : Char} {rest : List Char} {part : Nat}

/-- The expanded text, taken apart where it stopped. -/
theorem expand_eq (stop : StopsAt pad due cs taken passed c rest part) :
    expandWith pad due cs = expandWith pad due passed ++
      (lead pad (dueAfter due passed) c ++ c :: expandWith pad (c == '\n') rest) := by
  rw [stop.text, expandWith_append, expandWith_cons]

/-- What has been taken. -/
theorem take_expand (stop : StopsAt pad due cs taken passed c rest part) :
    (expandWith pad due cs).take taken =
      expandWith pad due passed ++ (lead pad (dueAfter due passed) c).take part := by
  rw [stop.expand_eq, stop.taken, List.take_length_add_append,
    List.take_append_of_le_length stop.part_le]

/-- What has not been taken. -/
theorem drop_glyphs (stop : StopsAt pad due cs taken passed c rest part) :
    (glyphsWith pad due cs).drop taken = (leadGlyphs pad (dueAfter due passed) c).drop part ++
      .text c :: glyphsWith pad (c == '\n') rest := by
  have before : (expandWith pad due passed).length = (glyphsWith pad due passed).length := by
    rw [← map_char_glyphsWith, List.length_map]
  have within : part ≤ (leadGlyphs pad (dueAfter due passed) c).length := by
    rw [leadGlyphs, List.length_mapIdx]
    exact stop.part_le
  rw [stop.text, glyphsWith_append, glyphsWith, stop.taken, before, List.drop_length_add_append,
    List.drop_append_of_le_length within]

/-- The text from the character on has not reached the sink. -/
theorem unreached_eq (stop : StopsAt pad due cs taken passed c rest part) :
    ((glyphsWith pad due cs).drop taken).filterMap Glyph.text? = c :: rest := by
  rw [stop.drop_glyphs, List.filterMap_append, filterMap_text?_leadGlyphs, List.filterMap_cons,
    filterMap_text?_glyphsWith]
  rfl

/-- The first glyph that was not taken is one of the pad if some of it is missing. -/
theorem getElem?_glyphs (stop : StopsAt pad due cs taken passed c rest part) (j : Nat) :
    (∃ d, (glyphsWith pad due cs)[taken]? = some (.pad j d)) ↔
      j = part ∧ part < (lead pad (dueAfter due passed) c).length := by
  have first : (glyphsWith pad due cs)[taken]? = ((glyphsWith pad due cs).drop taken)[0]? := by
    rw [List.getElem?_drop, Nat.add_zero]
  rw [first, stop.drop_glyphs, leadGlyphs]
  by_cases missing : part < (lead pad (dueAfter due passed) c).length
  · have inPad : 0 < (((lead pad (dueAfter due passed) c).mapIdx Glyph.pad).drop part).length := by
      rw [List.length_drop, List.length_mapIdx]
      omega
    rw [List.getElem?_append_left inPad, List.getElem?_drop, Nat.add_zero, List.getElem?_mapIdx,
      List.getElem?_eq_getElem missing, Option.map_some]
    simp only [Option.some.injEq, Glyph.pad.injEq, missing, and_true]
    exact ⟨fun ⟨_, place, _⟩ => place.symm, fun place => ⟨_, place.symm, rfl⟩⟩
  · have whole : ((lead pad (dueAfter due passed) c).mapIdx Glyph.pad).drop part = [] := by
      rw [List.drop_eq_nil_iff, List.length_mapIdx]
      omega
    simp only [whole, List.nil_append, List.getElem?_cons_zero, Option.some.injEq, reduceCtorEq,
      exists_false, missing, and_false]

/-- The second write puts the whole pad in front of the character if some of it was
missing, and nothing otherwise. -/
theorem expand_again (stop : StopsAt pad due cs taken passed c rest part) :
    expandWith pad (dueWith pad.length due cs taken) (c :: rest) =
      (if part < (lead pad (dueAfter due passed) c).length then lead pad (dueAfter due passed) c
        else []) ++ c :: expandWith pad (c == '\n') rest := by
  rw [expandWith_cons, stop.text, stop.taken, dueWith_append, dueWith, ← length_lead]
  congr 1
  split
  · rfl
  · rw [if_pos (by have := stop.part_le; omega), lead]
    by_cases newline : c = '\n' <;> simp [newline]

/-- If the refusal did not fall strictly inside the pad, the second write completes the
first one. -/
theorem take_append_again (stop : StopsAt pad due cs taken passed c rest part)
    (untorn : ¬(0 < part ∧ part < (lead pad (dueAfter due passed) c).length)) :
    (expandWith pad due cs).take taken ++
      expandWith pad (dueWith pad.length due cs taken) (c :: rest) = expandWith pad due cs := by
  have part_le := stop.part_le
  rw [stop.take_expand, stop.expand_again, stop.expand_eq, List.append_assoc]
  congr 1
  split
  · have nothing : part = 0 := by omega
    rw [nothing, List.take_zero, List.nil_append]
  · rw [List.take_of_length_le (by omega), List.nil_append]

/-- If it did, the second write starts with the whole pad. -/
theorem again_of_torn (stop : StopsAt pad due cs taken passed c rest part)
    (missing : part < (lead pad (dueAfter due passed) c).length) :
    part < pad.length ∧ ∃ after,
      (expandWith pad due cs).take taken = expandWith pad due passed ++ pad.take part ∧
      expandWith pad due cs = expandWith pad due passed ++ (pad ++ after) ∧
      expandWith pad (dueWith pad.length due cs taken) (c :: rest) = pad ++ after := by
  have whole : lead pad (dueAfter due passed) c = pad := by
    unfold lead at missing ⊢
    split at missing
    next due => rw [if_pos due]
    next => exact absurd missing (Nat.not_lt_zero part)
  refine ⟨whole ▸ missing, c :: expandWith pad (c == '\n') rest, ?_, ?_, ?_⟩
  · rw [stop.take_expand, whole]
  · rw [stop.expand_eq, whole]
  · rw [stop.expand_again, if_pos missing, whole]

/-- The last character decides about the flag, and the second write ends with it too. -/
theorem dueAfter_again (stop : StopsAt pad due cs taken passed c rest part) (flag : Bool) :
    dueAfter flag (c :: rest) = dueAfter due cs := by
  rw [stop.text, dueAfter_append, dueAfter, dueAfter]

end StopsAt

end Layer

/-! ## The second write -/

namespace Writer

/-- What a write leaves that was taken, in any sink. -/
theorem of_taken {layers : List Layer} {text s : String} {room : Option Nat} {whole : Writer}
    (taken : write ⟨layers, ⟨text, room⟩⟩ s = (true, whole)) :
    whole.sink.text = text ++ String.ofList (Layer.expandAll layers s.toList) ∧
      whole.layers = Layer.settleAll layers s.toList := by
  cases room with
  | none =>
    rw [write_unlimited] at taken
    cases taken
    exact ⟨rfl, rfl⟩
  | some n =>
    by_cases fits : (Layer.expandAll layers s.toList).length ≤ n
    · rw [write_of_fits layers text s n fits] at taken
      cases taken
      exact ⟨rfl, rfl⟩
    · have overflows := (write_of_overflows layers text s n (Nat.lt_of_not_le fits)).1
      rw [taken] at overflows
      contradiction

variable {layer : Layer} {text s : String} {n : Nat} {failed : Writer}

/-- What a write through one layer leaves that was refused. -/
theorem of_refused (refused : write ⟨[layer], ⟨text, some n⟩⟩ s = (false, failed)) :
    n < (layer.expand s.toList).length ∧ failed = ⟨[layer.after s.toList n],
      ⟨text ++ String.ofList ((layer.expand s.toList).take n), some 0⟩⟩ := by
  have short : n < (layer.expand s.toList).length := by
    apply Nat.lt_of_not_le
    intro fits
    rw [write_of_fits [layer] text s n fits] at refused
    cases refused
  have kept : min n (layer.expand s.toList).length = n := Nat.min_eq_left (Nat.le_of_lt short)
  have full : n - (layer.expand s.toList).length = 0 := Nat.sub_eq_zero_of_le (Nat.le_of_lt short)
  simp only [write, Layer.pass, Sink.accept_limited, kept, full, Prod.mk.injEq] at refused
  exact ⟨short, refused.2.symm⟩

section

variable {passed : List Char} {c : Char} {rest : List Char} {part : Nat}
  (stop : Layer.StopsAt layer.pad.toList layer.due s.toList n passed c rest part)
  (refused : write ⟨[layer], ⟨text, some n⟩⟩ s = (false, failed))

include stop refused

/-- What the second write leaves, if there is room for all that it passes on. -/
theorem write_unreached {more : Nat}
    (fits : ((layer.after s.toList n).expand (c :: rest)).length ≤ more) :
    ∃ resumed, (failed.makeRoom more).write (layer.unreached s n) = (true, resumed) ∧
      resumed.sink.text = failed.sink.text ++
        String.ofList ((layer.after s.toList n).expand (c :: rest)) ∧
      resumed.layers = [layer.settle s.toList] := by
  obtain ⟨-, rfl⟩ := of_refused refused
  have left : layer.unreached s n = String.ofList (c :: rest) :=
    congrArg String.ofList stop.unreached_eq
  have settled : (layer.after s.toList n).settle (c :: rest) = layer.settle s.toList :=
    congrArg (Layer.mk layer.pad) (stop.dueAfter_again _)
  have again := write_of_fits [layer.after s.toList n]
    (text ++ String.ofList ((layer.expand s.toList).take n)) (String.ofList (c :: rest)) (0 + more)
  rw [String.toList_ofList, Layer.settleAll, Layer.settleAll, settled] at again
  have accepted := again (by rw [Nat.zero_add]; exact fits)
  rw [← left] at accepted
  exact ⟨_, accepted, rfl, rfl⟩

/-- A refusal that did not fall strictly inside a pad leaves no trace. -/
theorem resumed_of_untorn {more : Nat}
    (untorn : ¬(0 < part ∧
      part < (Layer.lead layer.pad.toList (Layer.dueAfter layer.due passed) c).length))
    (enough : (layer.expand s.toList).length ≤ n + more) :
    ∃ resumed, (failed.makeRoom more).write (layer.unreached s n) = (true, resumed) ∧
      resumed.sink.text = text ++ String.ofList (layer.expand s.toList) ∧
      resumed.layers = [layer.settle s.toList] := by
  have completed : (layer.expand s.toList).take n ++ (layer.after s.toList n).expand (c :: rest) =
      layer.expand s.toList := by
    rw [layer.expand_after]
    exact stop.take_append_again untorn
  have sizes := congrArg List.length completed
  rw [List.length_append, List.length_take] at sizes
  obtain ⟨resumed, accepted, text_eq, layers_eq⟩ := write_unreached stop refused
    (by omega : ((layer.after s.toList n).expand (c :: rest)).length ≤ more)
  refine ⟨resumed, accepted, ?_, layers_eq⟩
  rw [text_eq, (of_refused refused).2, String.append_assoc, ← String.ofList_append, completed]

/-- A refusal strictly inside a pad leaves what was taken of the pad. -/
theorem resumed_of_torn
    (missing : part < (Layer.lead layer.pad.toList (Layer.dueAfter layer.due passed) c).length) :
    part < layer.pad.length ∧ ∃ before after : String,
      failed.sink.text = before ++ String.ofList (layer.pad.toList.take part) ∧
      text ++ String.ofList (layer.expand s.toList) = before ++ (layer.pad ++ after) ∧
      ∀ more, (layer.expand s.toList).length + part ≤ n + more →
        ∃ resumed, (failed.makeRoom more).write (layer.unreached s n) = (true, resumed) ∧
          resumed.sink.text =
            before ++ String.ofList (layer.pad.toList.take part) ++ (layer.pad ++ after) ∧
          resumed.layers = [layer.settle s.toList] := by
  obtain ⟨within, after, cut, all, again⟩ := stop.again_of_torn missing
  rw [← layer.expand_after] at again
  have reached : failed.sink.text =
      text ++ String.ofList (Layer.expandWith layer.pad.toList layer.due passed) ++
        String.ofList (layer.pad.toList.take part) := by
    rw [(of_refused refused).2, Layer.expand, cut, String.ofList_append, ← String.append_assoc]
  refine ⟨layer.length_pad ▸ within, _, String.ofList after, reached, ?_, fun more enough => ?_⟩
  · rw [Layer.expand, all, String.ofList_append, String.ofList_append, String.ofList_toList,
      String.append_assoc]
  · have sizes := congrArg List.length all
    have sizes' := congrArg List.length again
    rw [List.length_append] at sizes
    have room := stop.taken
    have fits : ((layer.after s.toList n).expand (c :: rest)).length ≤ more := by
      rw [Layer.expand, sizes] at enough
      omega
    obtain ⟨resumed, accepted, text_eq, layers_eq⟩ := write_unreached stop refused fits
    refine ⟨resumed, accepted, ?_, layers_eq⟩
    rw [text_eq, reached, again, String.ofList_append, String.ofList_toList]

end

end Writer

/-- A refused write can be resumed.  What has reached the sink are the first `n` glyphs.
The sink is given room, and what has not reached it of the text is written.  If the glyph
that was refused is not strictly inside a pad, the text in the sink and the flag are then
those of one write that meets no refusal.  If it is, behind `j` characters of the pad,
these characters stand in front of that pad once more, and the flag is the same. -/
theorem resumed_eq_uninterrupted (layer : Layer) (text s : String) (n : Nat) (room : Option Nat)
    (failed whole : Writer)
    (refused : Writer.write ⟨[layer], ⟨text, some n⟩⟩ s = (false, failed))
    (taken : Writer.write ⟨[layer], ⟨text, room⟩⟩ s = (true, whole)) :
    failed.sink.text = text ++ String.ofList (((layer.glyphs s).take n).map Glyph.char) ∧
    ((∀ j, ¬layer.TornAt s n j) → ∀ more, (layer.glyphs s).length ≤ n + more →
      ∃ resumed, (failed.makeRoom more).write (layer.unreached s n) = (true, resumed) ∧
        resumed.sink.text = whole.sink.text ∧ resumed.layers = whole.layers) ∧
    (∀ j, layer.TornAt s n j → j < layer.pad.length ∧ ∃ before after : String,
      failed.sink.text = before ++ String.ofList (layer.pad.toList.take j) ∧
      whole.sink.text = before ++ (layer.pad ++ after) ∧
      ∀ more, (layer.glyphs s).length + j ≤ n + more →
        ∃ resumed, (failed.makeRoom more).write (layer.unreached s n) = (true, resumed) ∧
          resumed.sink.text =
            before ++ String.ofList (layer.pad.toList.take j) ++ (layer.pad ++ after) ∧
          resumed.layers = whole.layers) := by
  obtain ⟨short, left⟩ := Writer.of_refused refused
  obtain ⟨text_eq, layers_eq⟩ := Writer.of_taken taken
  obtain ⟨passed, c, rest, part, stop⟩ :=
    Layer.exists_stopsAt layer.pad.toList layer.due s.toList n short
  rw [text_eq, layers_eq, layer.length_glyphs]
  refine ⟨?_, fun untorn more enough => ?_, fun j torn => ?_⟩
  · rw [left, List.map_take, Layer.glyphs, Layer.map_char_glyphsWith]
    rfl
  · apply Writer.resumed_of_untorn stop refused ?_ enough
    rintro ⟨inside, missing⟩
    exact untorn part ⟨inside, (stop.getElem?_glyphs part).mpr ⟨rfl, missing⟩⟩
  · obtain ⟨-, there⟩ := torn
    obtain ⟨rfl, missing⟩ := (stop.getElem?_glyphs j).mp there
    exact Writer.resumed_of_torn stop refused missing

/-- Two dashes in front of each line.  If the write is refused behind the first dash of the
third line, the line gets three in the end, and if it is refused behind both, two. -/
theorem resumed_eq_uninterrupted_twoDashes :
    Writer.write ⟨[⟨"--", true⟩], ⟨"x", none⟩⟩ "a\n\nbc\n" =
      (true, ⟨[⟨"--", true⟩], ⟨"x--a\n\n--bc\n", none⟩⟩) ∧
    Writer.write ⟨[⟨"--", true⟩], ⟨"x", some 6⟩⟩ "a\n\nbc\n" =
      (false, ⟨[⟨"--", true⟩], ⟨"x--a\n\n-", some 0⟩⟩) ∧
    Layer.TornAt ⟨"--", true⟩ "a\n\nbc\n" 6 1 ∧
    (∃ resumed, Writer.write ⟨[⟨"--", true⟩], ⟨"x--a\n\n-", some 5⟩⟩ "bc\n" = (true, resumed) ∧
      resumed.sink.text = "x--a\n\n---bc\n" ∧ resumed.layers = [⟨"--", true⟩]) ∧
    Writer.write ⟨[⟨"--", true⟩], ⟨"x", some 7⟩⟩ "a\n\nbc\n" =
      (false, ⟨[⟨"--", false⟩], ⟨"x--a\n\n--", some 0⟩⟩) ∧
    (∀ j, ¬Layer.TornAt ⟨"--", true⟩ "a\n\nbc\n" 7 j) ∧
    (∃ resumed, Writer.write ⟨[⟨"--", false⟩], ⟨"x--a\n\n--", some 3⟩⟩ "bc\n" = (true, resumed) ∧
      resumed.sink.text = "x--a\n\n--bc\n" ∧ resumed.layers = [⟨"--", true⟩]) := by
  have taken : Writer.write ⟨[⟨"--", true⟩], ⟨"x", none⟩⟩ "a\n\nbc\n" =
      (true, ⟨[⟨"--", true⟩], ⟨"x--a\n\n--bc\n", none⟩⟩) := rfl
  have inside : Writer.write ⟨[⟨"--", true⟩], ⟨"x", some 6⟩⟩ "a\n\nbc\n" =
      (false, ⟨[⟨"--", true⟩], ⟨"x--a\n\n-", some 0⟩⟩) := rfl
  have behind : Writer.write ⟨[⟨"--", true⟩], ⟨"x", some 7⟩⟩ "a\n\nbc\n" =
      (false, ⟨[⟨"--", false⟩], ⟨"x--a\n\n--", some 0⟩⟩) := rfl
  have torn : Layer.TornAt ⟨"--", true⟩ "a\n\nbc\n" 6 1 := ⟨by decide, '-', by decide⟩
  have untorn : ∀ j, ¬Layer.TornAt ⟨"--", true⟩ "a\n\nbc\n" 7 j := by
    rintro j ⟨-, c, there⟩
    cases there
  refine ⟨taken, inside, torn, ?_, behind, untorn, ?_⟩
  · obtain ⟨-, before, after, cut, whole, resumes⟩ :=
      (resumed_eq_uninterrupted _ _ _ _ _ _ _ inside taken).2.2 1 torn
    obtain ⟨resumed, accepted, text_eq, layers_eq⟩ := resumes 5 (by decide)
    have before_eq : before = "x--a\n\n" := (String.append_left_inj "-").mp cut.symm
    subst before_eq
    have after_eq : "--" ++ after = "--bc\n" :=
      (String.append_right_inj "x--a\n\n").mp whole.symm
    exact ⟨resumed, accepted, text_eq.trans (congrArg ("x--a\n\n-" ++ ·) after_eq), layers_eq⟩
  · exact (resumed_eq_uninterrupted _ _ _ _ _ _ _ behind taken).2.1 untorn 3 (by decide)

end Abacus
