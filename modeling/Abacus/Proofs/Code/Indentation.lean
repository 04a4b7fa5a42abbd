import Abacus.Proofs.Code.Render

/-!
# Indentation follows the braces

How far a line of code is indented can be read off the braces on the lines above
it: one indentation for each that is still open, and one less on a line that
begins with a closing brace (`StartsAt`, `FollowsBraces`).  The lines are those
of the text, which may close one block and open the next.

A block puts a layer around its body.  This adds one indentation to each line,
and the brace in front of the body adds one to the depth of each
(`FollowsBraces.deeper`).  A conditional has no lines of its own.  Its header
begins the first line of one branch, and the last line of that branch, in which
its braces are closed again, begins the first line of the other (`Begun.join`).
-/

namespace Abacus

/-! ## Depth of braces -/

/-- The number of opening braces less that of closing ones. -/
def braceDepth (cs : List Char) : Int := cs.count '{' - cs.count '}'

@[simp] theorem braceDepth_nil : braceDepth [] = 0 := rfl

@[simp] theorem braceDepth_append (cs ds : List Char) :
    braceDepth (cs ++ ds) = braceDepth cs + braceDepth ds := by
  unfold braceDepth
  rw [List.count_append, List.count_append]
  omega

theorem braceDepth_newline : braceDepth ['\n'] = 0 := rfl

/-- The text has none of the characters that lay code out. -/
def Plain (cs : List Char) : Prop := ∀ c, isFrame c = true → c ∉ cs

theorem plain_iff {cs : List Char} : Plain cs ↔ '{' ∉ cs ∧ '}' ∉ cs ∧ '\n' ∉ cs := by
  constructor
  · intro plain
    exact ⟨plain '{' rfl, plain '}' rfl, plain '\n' rfl⟩
  · rintro ⟨opening, closing, newline⟩ c frame
    rcases eq_of_isFrame frame with rfl | rfl | rfl
    · exact newline
    · exact opening
    · exact closing

theorem Plain.append {cs ds : List Char} (first : Plain cs) (later : Plain ds) :
    Plain (cs ++ ds) := by
  intro c frame
  rw [List.mem_append, not_or]
  exact ⟨first c frame, later c frame⟩

theorem Plain.braceDepth {cs : List Char} (plain : Plain cs) : braceDepth cs = 0 := by
  obtain ⟨opening, closing, -⟩ := plain_iff.mp plain
  rw [Abacus.braceDepth, List.count_eq_zero.mpr opening, List.count_eq_zero.mpr closing]
  rfl

/-! ## Indented lines -/

/-- The line has one indentation for each open brace, or one less if a closing brace is
first, and then a character. -/
def StartsAt (style : CodeStyle) (depth : Int) (line : List Char) : Prop :=
  ∃ (k : Nat) (rest : List Char), line = (style.margin k).toList ++ rest ∧ rest ≠ [] ∧
    (k : Int) = depth - if rest.head? = some '}' then 1 else 0

/-- The line ends in a brace or a semicolon. -/
def EndsStatement (line : List Char) : Prop :=
  ∃ c, line.getLast? = some c ∧ (c = '{' ∨ c = '}' ∨ c = ';')

/-- The lines, of which the first stands at the given depth, are indented for the braces
that are open in front of each. -/
def FollowsBraces (style : CodeStyle) : Int → List (List Char) → Prop
  | _, [] => True
  | depth, line :: lines =>
    StartsAt style depth line ∧ EndsStatement line ∧
      FollowsBraces style (depth + braceDepth line) lines

theorem EndsStatement.append {more : List Char} (ends : EndsStatement more) (line : List Char) :
    EndsStatement (line ++ more) := by
  obtain ⟨c, last, stop⟩ := ends
  refine ⟨c, ?_, stop⟩
  rw [List.getLast?_append, last]
  rfl

section

variable {style : CodeStyle} {depth : Int} {line : List Char} {lines more : List (List Char)}

/-- A line without indentation. -/
theorem startsAt_zero (begins : line ≠ []) (first : line.head? ≠ some '}') :
    StartsAt style 0 line := by
  refine ⟨0, line, rfl, begins, ?_⟩
  rw [if_neg first]
  rfl

theorem StartsAt.ne_nil (starts : StartsAt style depth line) : line ≠ [] := by
  obtain ⟨k, rest, rfl, begins, -⟩ := starts
  exact List.append_ne_nil_of_right_ne_nil _ begins

theorem StartsAt.deeper (starts : StartsAt style depth line) :
    StartsAt style (depth + 1) (style.indent.toList ++ line) := by
  obtain ⟨k, rest, rfl, begins, level⟩ := starts
  refine ⟨k + 1, rest, ?_, begins, ?_⟩
  · rw [style.toList_margin_succ, List.append_assoc]
  · omega

theorem StartsAt.append (starts : StartsAt style depth line) (cs : List Char) :
    StartsAt style depth (line ++ cs) := by
  obtain ⟨k, rest, rfl, begins, level⟩ := starts
  obtain ⟨c, rest, rfl⟩ := List.exists_cons_of_ne_nil begins
  exact ⟨k, c :: rest ++ cs, List.append_assoc .., List.cons_ne_nil _ _, level⟩

theorem followsBraces_append :
    FollowsBraces style depth (lines ++ more) ↔
      FollowsBraces style depth lines ∧
        FollowsBraces style (depth + braceDepth lines.flatten) more := by
  induction lines generalizing depth with
  | nil => simp [FollowsBraces]
  | cons line lines ih =>
    rw [List.cons_append, FollowsBraces, FollowsBraces, ih, List.flatten_cons, braceDepth_append,
      and_assoc, and_assoc, Int.add_assoc]

theorem FollowsBraces.forall_ne_nil (follows : FollowsBraces style depth lines) :
    ∀ line ∈ lines, line ≠ [] := by
  induction lines generalizing depth with
  | nil => nofun
  | cons line lines ih =>
    obtain ⟨starts, -, later⟩ := follows
    exact List.forall_mem_cons.mpr ⟨starts.ne_nil, ih later⟩

/-- One more indentation on each line is one more open brace in front of all of them. -/
theorem FollowsBraces.deeper (plain : Plain style.indent.toList)
    (follows : FollowsBraces style depth lines) :
    FollowsBraces style (depth + 1) (lines.map fun line => style.indent.toList ++ line) ∧
      braceDepth (lines.map fun line => style.indent.toList ++ line).flatten =
        braceDepth lines.flatten := by
  induction lines generalizing depth with
  | nil => exact ⟨trivial, rfl⟩
  | cons line lines ih =>
    obtain ⟨starts, ends, later⟩ := follows
    obtain ⟨deeper, same⟩ := ih later
    have unchanged : braceDepth (style.indent.toList ++ line) = braceDepth line := by
      rw [braceDepth_append, plain.braceDepth, Int.zero_add]
    refine ⟨⟨starts.deeper, ends.append _, ?_⟩, ?_⟩
    · rw [unchanged, Int.add_right_comm]
      exact deeper
    · rw [List.map_cons, List.flatten_cons, List.flatten_cons, braceDepth_append, unchanged, same,
        braceDepth_append]

end

/-! ## Texts made of lines -/

/-- The text consists of the lines, each with an end of line behind it.  They follow the
braces, and all braces are closed in the end. -/
structure Lined (style : CodeStyle) (text : List Char) (lines : List (List Char)) : Prop where
  /-- A line ends where the text says so. -/
  inline : ∀ line ∈ lines, '\n' ∉ line
  /-- The text. -/
  text_eq : text = lines.flatMap fun line => line ++ ['\n']
  /-- Indentation. -/
  follows : FollowsBraces style 0 lines
  /-- What is opened is closed. -/
  closed : braceDepth lines.flatten = 0

theorem braceDepth_lines (lines : List (List Char)) :
    braceDepth (lines.flatMap fun line => line ++ ['\n']) = braceDepth lines.flatten := by
  induction lines with
  | nil => rfl
  | cons line lines ih =>
    rw [List.flatMap_cons, List.flatten_cons, braceDepth_append, braceDepth_append,
      braceDepth_newline, ih, braceDepth_append, Int.add_zero]

/-- A text is put together from its lines in one way. -/
theorem splitOn_eq_of_lines {cs : List Char} {lines : List (List Char)}
    (inline : ∀ line ∈ lines, '\n' ∉ line)
    (text : cs ++ ['\n'] = lines.flatMap fun line => line ++ ['\n']) :
    cs.splitOn '\n' = lines := by
  have nonempty : lines ≠ [] := by
    rintro rfl
    exact List.concat_ne_nil _ _ text
  have joined : ∀ (line : List Char) (lines : List (List Char)),
      (line :: lines).flatMap (fun line => line ++ ['\n']) =
        ['\n'].intercalate (line :: lines) ++ ['\n'] := by
    intro line lines
    induction lines generalizing line with
    | nil => simp
    | cons next lines ih =>
      rw [List.flatMap_cons, ih, List.intercalate_cons_cons]
      simp
  obtain ⟨line, lines, rfl⟩ := List.exists_cons_of_ne_nil nonempty
  rw [joined] at text
  rw [List.append_cancel_right text]
  exact List.splitOn_intercalate '\n' inline nonempty

/-- The text consists of complete lines as above and the beginning of one more, in which
all braces are closed. -/
structure Begun (style : CodeStyle) (text : List Char) (lines : List (List Char))
    (last : List Char) : Prop where
  /-- A line ends where the text says so. -/
  inline : ∀ line ∈ lines, '\n' ∉ line
  /-- The last one does not end. -/
  inlineLast : '\n' ∉ last
  /-- The text. -/
  text_eq : text = lines.flatMap (fun line => line ++ ['\n']) ++ last
  /-- Indentation of the complete lines. -/
  follows : FollowsBraces style 0 lines
  /-- Indentation of the last one. -/
  starts : StartsAt style (braceDepth lines.flatten) last
  /-- What is opened is closed. -/
  closed : braceDepth lines.flatten + braceDepth last = 0

section

variable {style : CodeStyle} {text cs : List Char} {lines others : List (List Char)}
  {last : List Char}

namespace Lined

theorem nil : Lined style [] [] := ⟨nofun, rfl, trivial, rfl⟩

theorem append {more : List Char} (first : Lined style text lines)
    (later : Lined style more others) : Lined style (text ++ more) (lines ++ others) where
  inline := List.forall_mem_append.mpr ⟨first.inline, later.inline⟩
  text_eq := by rw [first.text_eq, later.text_eq, List.flatMap_append]
  follows := by
    rw [followsBraces_append, first.closed]
    exact ⟨first.follows, later.follows⟩
  closed := by
    rw [List.flatten_append, braceDepth_append, first.closed, later.closed]
    rfl

/-- A block around lines: a brace, the lines with one indentation more, and a brace. -/
theorem block (plain : Plain style.indent.toList) (inner : Lined style text lines) :
    Lined style ("\x7b\n".toList ++ (Layer.expandWith style.indent.toList true text ++
        "\x7d\n".toList))
      (['{'] :: (lines.map (fun line => style.indent.toList ++ line) ++ [['}']])) := by
  obtain ⟨deeper, same⟩ := inner.follows.deeper plain
  rw [inner.closed] at same
  have padded := Layer.expandWith_lines style.indent.toList lines fun line here =>
    ⟨inner.follows.forall_ne_nil line here, inner.inline line here⟩
  have opened : StartsAt style 0 ['{'] := startsAt_zero (List.cons_ne_nil _ _) (by decide)
  have closed : StartsAt style 1 ['}'] := ⟨0, ['}'], rfl, List.cons_ne_nil _ _, rfl⟩
  refine ⟨?_, ?_, ⟨opened, ⟨'{', rfl, .inl rfl⟩, followsBraces_append.mpr ⟨deeper, ?_⟩⟩, ?_⟩
  · refine List.forall_mem_cons.mpr ⟨by decide, List.forall_mem_append.mpr
      ⟨?_, List.forall_mem_singleton.mpr (by decide)⟩⟩
    intro line here
    obtain ⟨line, there, rfl⟩ := List.mem_map.mp here
    rw [List.mem_append, not_or]
    exact ⟨plain '\n' rfl, inner.inline line there⟩
  · rw [inner.text_eq, padded, List.flatMap_cons, List.flatMap_append, List.flatMap_map,
      List.flatMap_singleton]
    rfl
  · rw [same]
    exact ⟨closed, ⟨'}', rfl, .inr (.inl rfl)⟩, trivial⟩
  · rw [List.flatten_cons, List.flatten_append, braceDepth_append, braceDepth_append, same]
    rfl

/-- Without its last end of line the text ends in a line that can go on. -/
theorem begun (lined : Lined style (cs ++ ['\n']) lines) :
    ∃ lines last, Begun style cs lines last := by
  obtain ⟨inline, text, follows, closed⟩ := lined
  rcases List.eq_nil_or_concat lines with rfl | ⟨before, last, rfl⟩
  · exact absurd text (List.concat_ne_nil _ _)
  · rw [List.concat_eq_append] at inline text follows closed
    obtain ⟨inlineBefore, inlineLast⟩ := List.forall_mem_append.mp inline
    obtain ⟨followsBefore, starts, -⟩ := followsBraces_append.mp follows
    rw [List.flatMap_append, List.flatMap_singleton, ← List.append_assoc] at text
    rw [List.flatten_append, braceDepth_append, List.flatten_singleton] at closed
    rw [Int.zero_add] at starts
    exact ⟨before, last, inlineBefore, inlineLast last (List.mem_singleton_self _),
      List.append_cancel_right text, followsBefore, starts, closed⟩

end Lined

namespace Begun

/-- The beginning of a first line. -/
theorem plain (begins : cs ≠ []) (plain : Plain cs) : Begun style cs [] cs := by
  refine ⟨nofun, plain '\n' rfl, rfl, trivial, startsAt_zero begins ?_, ?_⟩
  · intro brace
    exact plain '}' rfl (List.mem_of_mem_head? brace)
  · rw [plain.braceDepth]
    rfl

/-- The line goes on without braces. -/
theorem append (begun : Begun style text lines last) (plain : Plain cs) :
    Begun style (text ++ cs) lines (last ++ cs) where
  inline := begun.inline
  inlineLast := by
    rw [List.mem_append, not_or]
    exact ⟨begun.inlineLast, plain '\n' rfl⟩
  text_eq := by rw [begun.text_eq, List.append_assoc]
  follows := begun.follows
  starts := begun.starts.append cs
  closed := by rw [braceDepth_append, plain.braceDepth, Int.add_zero, begun.closed]

/-- The line ends as a statement does. -/
theorem lined (begun : Begun style text lines last) (ends : EndsStatement last) :
    Lined style (text ++ ['\n']) (lines ++ [last]) where
  inline := List.forall_mem_append.mpr
    ⟨begun.inline, List.forall_mem_singleton.mpr begun.inlineLast⟩
  text_eq := by rw [begun.text_eq, List.append_assoc, List.flatMap_append, List.flatMap_singleton]
  follows := by
    rw [followsBraces_append, Int.zero_add]
    exact ⟨begun.follows, begun.starts, ends, trivial⟩
  closed := by rw [List.flatten_append, braceDepth_append, List.flatten_singleton, begun.closed]

/-- The line goes on with the first line of another text.  All braces in front of that
text are closed, so its lines are indented as they are alone. -/
theorem join (begun : Begun style text lines last) (lined : Lined style (cs ++ ['\n']) others) :
    ∃ lines, Lined style (text ++ cs ++ ['\n']) lines := by
  obtain ⟨inline, whole, follows, closed⟩ := lined
  cases others with
  | nil => exact absurd whole (List.concat_ne_nil _ _)
  | cons next later =>
    obtain ⟨inlineNext, inlineLater⟩ := List.forall_mem_cons.mp inline
    obtain ⟨-, ends, followsLater⟩ := follows
    have level : braceDepth lines.flatten + braceDepth (last ++ next) = braceDepth next := by
      rw [braceDepth_append, ← Int.add_assoc, begun.closed, Int.zero_add]
    refine ⟨lines ++ (last ++ next) :: later, ?_, ?_, ?_, ?_⟩
    · refine List.forall_mem_append.mpr ⟨begun.inline, List.forall_mem_cons.mpr ⟨?_, inlineLater⟩⟩
      rw [List.mem_append, not_or]
      exact ⟨begun.inlineLast, inlineNext⟩
    · rw [List.append_assoc, whole, begun.text_eq, List.flatMap_append, List.flatMap_cons,
        List.flatMap_cons]
      simp only [List.append_assoc]
    · rw [followsBraces_append, Int.zero_add]
      refine ⟨begun.follows, begun.starts.append next, ends.append last, ?_⟩
      rw [level, ← Int.zero_add (braceDepth next)]
      exact followsLater
    · rw [List.flatten_append, List.flatten_cons, braceDepth_append, braceDepth_append,
        ← Int.add_assoc, level, ← braceDepth_append, ← List.flatten_cons]
      exact closed

end Begun

end

/-! ## Code -/

namespace Stmt

variable {style : CodeStyle}

theorem lined_bodyChars {ss : List Stmt}
    (each : ∀ s ∈ ss, ∃ lines, Lined style ((s.code style).toList ++ ['\n']) lines) :
    ∃ lines, Lined style (bodyChars style ss) lines := by
  induction ss with
  | nil => exact ⟨[], .nil⟩
  | cons s ss ih =>
    obtain ⟨first, later⟩ := List.forall_mem_cons.mp each
    obtain ⟨lines, here⟩ := first
    obtain ⟨others, there⟩ := ih later
    rw [bodyChars_cons]
    exact ⟨lines ++ others, here.append there⟩

/-- The lines of code follow the braces, whatever blocks they come from. -/
theorem lined_code (indent : Plain style.indent.toList) (s : Stmt)
    (names : ∀ name ∈ s.names, Plain name.toList) :
    ∃ lines, Lined style ((s.code style).toList ++ ['\n']) lines := by
  have braces : Lined style ("\x7b\x7d".toList ++ ['\n']) ["\x7b\x7d".toList] := by
    have starts : StartsAt style 0 "\x7b\x7d".toList :=
      startsAt_zero (List.cons_ne_nil _ _) (by decide)
    exact ⟨by decide, rfl, ⟨starts, ⟨'}', rfl, .inr (.inl rfl)⟩, trivial⟩, rfl⟩
  induction s using Stmt.nestedInduction with
  | assign x e =>
    obtain ⟨target, value⟩ := forall_names_assign.mp names
    have body : Plain (e.code style).toList := fun c frame =>
      e.frame_notMem_code frame style fun name here => value name here c frame
    have words : Plain " = ".toList ∧ Plain ";".toList := by
      rw [plain_iff, plain_iff]
      decide
    have semicolon : EndsStatement ";".toList := ⟨';', rfl, .inr (.inr rfl)⟩
    rw [code_assign]
    refine ⟨_, (Begun.plain ?_ (target.append (words.1.append (body.append words.2)))).lined
      (((semicolon.append _).append _).append _)⟩
    exact List.append_ne_nil_of_right_ne_nil _ (List.cons_ne_nil _ _)
  | block ss ih =>
    have valid := forall_names_block.mp names
    cases ss with
    | nil =>
      rw [code_block_nil]
      exact ⟨_, braces⟩
    | cons s ss =>
      obtain ⟨lines, inner⟩ := lined_bodyChars fun s here => ih s here (valid s here)
      rw [code_block_cons, List.append_assoc, List.append_assoc]
      exact ⟨_, inner.block indent⟩
  | conditional op l r t f iht ihf =>
    obtain ⟨left, right, first, second⟩ := forall_names_conditional.mp names
    have header : Plain (style.header op l r).toList := fun c frame =>
      style.frame_notMem_header frame op l r (fun name here => left name here c frame)
        fun name here => right name here c frame
    have begins : (style.header op l r).toList ≠ [] := by
      obtain ⟨cs, same⟩ := style.exists_header_eq_cons op l r
      rw [same]
      exact List.cons_ne_nil _ _
    have word : Plain " else ".toList := by
      rw [plain_iff]
      decide
    have otherwise : ∃ lines, Lined style ((elseCode style f).toList ++ ['\n']) lines := by
      cases f with
      | none => exact ⟨_, braces⟩
      | some f => exact ihf f rfl (second f rfl)
    -- the header begins the first line of one branch, and that branch the first line of the other
    obtain ⟨_, branch⟩ := iht first
    obtain ⟨_, other⟩ := otherwise
    obtain ⟨_, headed⟩ := (Begun.plain begins header).join branch
    obtain ⟨_, _, begun⟩ := headed.begun
    obtain ⟨lines, whole⟩ := (begun.append word).join other
    refine ⟨lines, ?_⟩
    rw [code_conditional_header]
    simpa only [List.append_assoc] using whole

end Stmt

/-- Each line of code is indented once for every brace that is open in front of it, or
once less if it begins with a closing brace, and does not end in white space: its last
character is a brace or a semicolon.  In the end no brace is open. -/
theorem lines_follow_braces (style : CodeStyle) (s : Stmt)
    (names : ∀ name ∈ s.names,
      '{' ∉ name.toList ∧ '}' ∉ name.toList ∧ '\n' ∉ name.toList)
    (indent : '{' ∉ style.indent.toList ∧ '}' ∉ style.indent.toList ∧
      '\n' ∉ style.indent.toList) :
    (∀ before line after, (s.code style).toList.splitOn '\n' = before ++ line :: after →
      ∃ (k : Nat) (rest : List Char), line = (style.margin k).toList ++ rest ∧
        (k : Int) = braceDepth before.flatten - (if rest.head? = some '}' then 1 else 0) ∧
        ∃ c, rest.getLast? = some c ∧ (c = '{' ∨ c = '}' ∨ c = ';')) ∧
    braceDepth (s.code style).toList = 0 := by
  obtain ⟨lines, inline, text, follows, closed⟩ := s.lined_code (plain_iff.mpr indent)
    fun name here => plain_iff.mpr (names name here)
  refine ⟨fun before line after split => ?_, ?_⟩
  · rw [splitOn_eq_of_lines inline text] at split
    subst split
    obtain ⟨-, ⟨k, rest, rfl, begins, level⟩, ⟨c, last, stop⟩, -⟩ :=
      followsBraces_append.mp follows
    rw [Int.zero_add] at level
    rw [List.getLast?_append_of_ne_nil _ begins] at last
    exact ⟨k, rest, rfl, level, c, last, stop⟩
  · have depth := braceDepth_lines lines
    rw [← text, braceDepth_append, braceDepth_newline, closed, Int.add_zero] at depth
    exact depth

/-- A conditional in a block, with a block for its first branch and an empty one for the
other. -/
def elseBehindBrace : Stmt :=
  .block [.conditional .lessThan (.var ⟨"a"⟩) (.var ⟨"b"⟩) (.block [.assign ⟨"a"⟩ (.var ⟨"b"⟩)])
    (some (.block []))]

/-- Its fourth line is behind two open braces and closes one of them. -/
theorem lines_follow_braces_elseBehindBrace :
    (∀ name ∈ elseBehindBrace.names,
      '{' ∉ name.toList ∧ '}' ∉ name.toList ∧ '\n' ∉ name.toList) ∧
    ∃ (k : Nat) (rest : List Char),
      "\t\x7d else \x7b\x7d".toList = ((⟨"\t", .legacy⟩ : CodeStyle).margin k).toList ++ rest ∧
      (k : Int) = 2 - (if rest.head? = some '}' then 1 else 0) ∧
      ∃ c, rest.getLast? = some c ∧ (c = '{' ∨ c = '}' ∨ c = ';') := by
  have names : ∀ name ∈ elseBehindBrace.names,
      '{' ∉ name.toList ∧ '}' ∉ name.toList ∧ '\n' ∉ name.toList := by decide
  have lines : (elseBehindBrace.code ⟨"\t", .legacy⟩).toList.splitOn '\n' =
      ["\x7b".toList, "\tif (a < b) \x7b".toList, "\t\ta = b;".toList] ++
        "\t\x7d else \x7b\x7d".toList :: ["\x7d".toList] := by
    simp only [elseBehindBrace, Stmt.code_block_cons, Stmt.bodyChars, Stmt.code_conditional,
      Stmt.code_assign, Stmt.elseCode, Stmt.code_block_nil, Expr.code_var, List.flatMap_cons,
      List.flatMap_nil]
    decide
  have followed := lines_follow_braces ⟨"\t", .legacy⟩ elseBehindBrace names (by decide)
  exact ⟨names, followed.1 _ _ _ lines⟩

end Abacus
