import Abacus.Proofs.Layout.Stream

/-!
# Lexemes

Code of the C family is read as a list of *lexemes*: names, numbers and marks.
A lexeme is as long as possible.  A name goes on with letters, digits and
underscores.  A number goes on with all of these, with points, and with a sign
right behind its exponent mark, so `1e-7` is one lexeme and `-7` are two.  A
mark goes on as long as it stays one of the language, so `--` is one mark and
not two, and the marks that begin a comment are lexemes of their own, which no
grammar here has a use for.

Blanks end a lexeme and leave nothing behind.  Parentheses, braces, commas and
semicolons are never part of a longer lexeme.  They and the blanks are the
*separators*, and a text can be cut at any of them (`lex_append`).

A pad of blanks in front of lines is invisible in the lexemes
(`lex_expandWith`).  A pad is written only where a line begins, and there no
lexeme is open.
-/

namespace Abacus

/-- A name, a number or a mark. -/
abbrev Lexeme := List Char

/-! ## Characters -/

/-- Whether a character stands between lexemes and in none. -/
def isBlank (c : Char) : Bool := [' ', '\t', '\n', '\r', '\x0b', '\x0c'].contains c

/-- Whether a character may begin a name. -/
def isLetter (c : Char) : Bool := c.isAlpha || c == '_'

/-- Whether a character may stand in a name. -/
def isNameChar (c : Char) : Bool := isLetter c || c.isDigit

/-- Whether a character is a lexeme by itself. -/
def isBracket (c : Char) : Bool := ['(', ')', '{', '}', ',', ';'].contains c

/-- Whether a character cannot be inside a lexeme of two or more. -/
def isSeparator (c : Char) : Bool := isBlank c || isBracket c

/-- The marks of two characters and more, and the beginnings of comments. -/
def longMarks : List Lexeme :=
  [['=', '='], ['!', '='], ['<', '='], ['>', '='], ['<', '<'], ['>', '>'], ['<', '<', '='],
    ['>', '>', '='], ['+', '+'], ['-', '-'], ['-', '>'], ['+', '='], ['-', '='], ['*', '='],
    ['/', '='], ['%', '='], ['&', '&'], ['|', '|'], ['&', '='], ['|', '='], ['^', '='],
    ['/', '/'], ['/', '*']]

/-! ## Reading -/

/-- Whether a lexeme is a number: it begins with a digit, or with a point and a digit. -/
def isNumeric : Lexeme → Bool
  | '.' :: c :: _ => c.isDigit
  | c :: _ => c.isDigit
  | [] => false

/-- Whether a character continues a number. -/
def continuesNumber (lexeme : Lexeme) (c : Char) : Bool :=
  isNameChar c || c == '.' ||
    ((c == '+' || c == '-') && (lexeme.getLast?.any fun mark => ['e', 'E', 'p', 'P'].contains mark))

/-- Whether a character continues the lexeme that was begun. -/
def continues : Lexeme → Char → Bool
  | [], _ => false
  | first :: more, c =>
    if isLetter first then isNameChar c
    else if isNumeric (first :: more) then continuesNumber (first :: more) c
    else if first :: more = ['.'] then c.isDigit
    else longMarks.contains (first :: more ++ [c])

/-- The lexeme that was begun, if any. -/
def begun (current : Lexeme) : List Lexeme := if current = [] then [] else [current]

/-- The lexemes of a text, the first of which was begun already. -/
def lexFrom : Lexeme → List Char → List Lexeme
  | current, [] => begun current
  | current, c :: cs =>
    if isBlank c then begun current ++ lexFrom [] cs
    else if continues current c then lexFrom (current ++ [c]) cs
    else begun current ++ lexFrom [c] cs

/-- The lexemes of a text. -/
def lex (cs : List Char) : List Lexeme := lexFrom [] cs

example : lex "if (x--1e-7 == -y) \x7b\x7d".toList =
    ["if".toList, ['('], ['x'], "--".toList, "1e-7".toList, "==".toList, ['-'], ['y'], [')'],
      ['{'], ['}']] := by decide

/-! ## Cutting at separators -/

/-- Long marks are made of neither separators nor characters of names. -/
theorem longMarks_chars {mark : Lexeme} (here : mark ∈ longMarks) {c : Char} (there : c ∈ mark) :
    isSeparator c = false ∧ isNameChar c = false := by
  have clean : longMarks.all (fun mark => mark.all fun c => !isSeparator c && !isNameChar c) := by
    decide
  have both := List.all_eq_true.mp (List.all_eq_true.mp clean mark here) c there
  simpa using both

theorem longMarks_of_separator {c : Char} (sep : isSeparator c = true) :
    ∀ mark ∈ longMarks, c ∉ mark := by
  intro mark here there
  rw [(longMarks_chars here there).1] at sep
  exact Bool.false_ne_true sep

/-- A separator is none of the characters that names and numbers are made of. -/
theorem not_nameChar_of_separator {c : Char} (sep : isSeparator c = true) :
    isNameChar c = false ∧ c ≠ '.' ∧ c ≠ '+' ∧ c ≠ '-' := by
  have clean : [' ', '\t', '\n', '\r', '\x0b', '\x0c', '(', ')', '{', '}', ',', ';'].all
      (fun c => !isNameChar c && (c != '.' && (c != '+' && c != '-'))) := by
    decide
  have here : c ∈ [' ', '\t', '\n', '\r', '\x0b', '\x0c', '(', ')', '{', '}', ',', ';'] := by
    simpa [isSeparator, isBlank, isBracket, or_assoc] using sep
  simpa using List.all_eq_true.mp clean c here

theorem continues_separator (lexeme : Lexeme) {c : Char} (sep : isSeparator c = true) :
    continues lexeme c = false := by
  obtain ⟨name, point, plus, minus⟩ := not_nameChar_of_separator sep
  cases lexeme with
  | nil => rfl
  | cons first more =>
    have digit : c.isDigit = false := by
      unfold isNameChar at name
      exact (Bool.or_eq_false_iff.mp name).2
    have mark : first :: (more ++ [c]) ∉ longMarks := by
      intro here
      exact longMarks_of_separator sep _ here (by simp)
    unfold continues continuesNumber
    simp [name, point, plus, minus, digit, mark]

theorem separator_continues {s : Char} (sep : isSeparator s = true) (c : Char) :
    continues [s] c = false := by
  obtain ⟨name, point, -, -⟩ := not_nameChar_of_separator sep
  have letter : isLetter s = false := (Bool.or_eq_false_iff.mp name).1
  have digit : s.isDigit = false := (Bool.or_eq_false_iff.mp name).2
  have numeric : isNumeric [s] = false := by simp [isNumeric, digit]
  have mark : [s, c] ∉ longMarks := by
    intro here
    exact longMarks_of_separator sep _ here (by simp)
  simp [continues, letter, numeric, point, mark]

@[simp] theorem begun_nil : begun [] = [] := rfl

theorem begun_cons (c : Char) (cs : List Char) : begun (c :: cs) = [c :: cs] := rfl

/-- Before a separator a lexeme ends. -/
theorem lexFrom_separator (current : Lexeme) {s : Char} (sep : isSeparator s = true)
    (cs : List Char) : lexFrom current (s :: cs) = begun current ++ lex (s :: cs) := by
  unfold lex
  rw [lexFrom, lexFrom, continues_separator _ sep, continues_separator _ sep]
  split <;> simp

/-- Behind a separator a lexeme begins. -/
theorem lexFrom_behind_separator {s : Char} (sep : isSeparator s = true) (cs : List Char) :
    lexFrom [s] cs = [s] :: lex cs := by
  cases cs with
  | nil => rfl
  | cons c cs =>
    have fresh : continues [] c = false := rfl
    unfold lex
    rw [lexFrom, lexFrom, separator_continues sep, fresh]
    split <;> simp [begun_cons]

/-- Whether a separator stands at the place where two texts meet, or one of them is empty. -/
def Apart (a b : List Char) : Prop :=
  a.getLast?.all isSeparator = true ∨ b.head?.all isSeparator = true

theorem lexFrom_append_of_head (current : Lexeme) (a b : List Char)
    (sep : b.head?.all isSeparator = true) :
    lexFrom current (a ++ b) = lexFrom current a ++ lex b := by
  induction a generalizing current with
  | nil =>
    cases b with
    | nil => simp [lex, lexFrom]
    | cons s b => exact lexFrom_separator current sep b
  | cons c a ih =>
    rw [List.cons_append, lexFrom, lexFrom]
    split
    · rw [ih, List.append_assoc]
    · split
      · exact ih _
      · rw [ih, List.append_assoc]

theorem lexFrom_append_of_getLast (current : Lexeme) (a b : List Char) (s : Char)
    (sep : isSeparator s = true) :
    lexFrom current (a ++ [s] ++ b) = lexFrom current (a ++ [s]) ++ lex b := by
  have cut := fun b => lexFrom_append_of_head current a (s :: b) sep
  have first : ∀ b, lex (s :: b) = lex [s] ++ lex b := by
    intro b
    unfold lex
    by_cases blank : isBlank s = true
    · simp [lexFrom, blank]
    · have fresh : continues [] s = false := rfl
      rw [lexFrom, lexFrom, if_neg blank, if_neg blank, fresh]
      simp only [Bool.false_eq_true, if_false, begun_nil, List.nil_append]
      rw [lexFrom_behind_separator sep, lexFrom_behind_separator sep]
      rfl
  rw [List.append_assoc, List.singleton_append, cut, cut, first, List.append_assoc]

/-- A text can be cut wherever there is a separator. -/
theorem lex_append (a b : List Char) (apart : Apart a b) : lex (a ++ b) = lex a ++ lex b := by
  rcases apart with behind | before
  · rcases List.eq_nil_or_concat a with rfl | ⟨front, s, rfl⟩
    · rfl
    · rw [List.concat_eq_append] at behind ⊢
      rw [List.getLast?_concat] at behind
      exact lexFrom_append_of_getLast [] front b s behind
  · exact lexFrom_append_of_head [] a b before

/-! ## Indentation -/

theorem lexFrom_blanks (pad cs : List Char) (blank : ∀ c ∈ pad, isBlank c = true) :
    lexFrom [] (pad ++ cs) = lexFrom [] cs := by
  induction pad with
  | nil => rfl
  | cons c pad ih =>
    rw [List.cons_append, lexFrom, if_pos (blank c (List.mem_cons_self ..)), begun_nil,
      List.nil_append]
    exact ih fun d there => blank d (List.mem_cons_of_mem _ there)

/-- Blanks in front of lines change no lexeme.  The pad may be due only where no
lexeme is open. -/
theorem lexFrom_expandWith (pad : List Char) (blank : ∀ c ∈ pad, isBlank c = true)
    (due : Bool) (current : Lexeme) (closed : due = true → current = []) (cs : List Char) :
    lexFrom current (Layer.expandWith pad due cs) = lexFrom current cs := by
  induction cs generalizing due current with
  | nil => rfl
  | cons c cs ih =>
    have unpadded : lexFrom current (c :: Layer.expandWith pad (c == '\n') cs) =
        lexFrom current (c :: cs) := by
      rw [lexFrom, lexFrom]
      split
      · rw [ih _ _ fun _ => rfl]
      next visible =>
        have inside : (c == '\n') = false := by
          apply beq_false_of_ne
          rintro rfl
          exact visible rfl
        rw [inside, ih false _ nofun, ih false _ nofun]
    rw [Layer.expandWith_cons, ← unpadded]
    unfold Layer.lead
    split
    next first =>
      have dueHere : due = true := (Bool.and_eq_true_iff.mp first).1
      rw [closed dueHere]
      exact lexFrom_blanks pad _ blank
    next => rfl

theorem lex_expandWith (pad cs : List Char) (blank : ∀ c ∈ pad, isBlank c = true) :
    lex (Layer.expandWith pad true cs) = lex cs :=
  lexFrom_expandWith pad blank true [] (fun _ => rfl) cs

/-! ## Names and numbers -/

/-- Whether a text is a name. -/
def isIdentifier : List Char → Bool
  | [] => false
  | first :: more => isLetter first && more.all isNameChar

theorem not_blank_of_nameChar {c : Char} (name : isNameChar c = true) : isBlank c = false := by
  rw [← Bool.not_eq_true]
  intro blank
  have sep : isSeparator c = true := by
    unfold isSeparator
    rw [blank, Bool.true_or]
  rw [(not_nameChar_of_separator sep).1] at name
  exact Bool.false_ne_true name

theorem not_letter_of_digit {c : Char} (digit : c.isDigit = true) : isLetter c = false := by
  -- digits come before all letters and the underscore
  have below : c.val ≤ '9'.val := of_decide_eq_true (Bool.and_eq_true_iff.mp digit).2
  have before : ∀ {letter : UInt32}, '9'.val < letter → ¬letter ≤ c.val := by
    intro letter later reached
    exact UInt32.lt_irrefl _ (UInt32.lt_of_lt_of_le later (UInt32.le_trans reached below))
  have upper : c.isUpper = false := decide_eq_false fun both => before (by decide) both.1
  have lower : c.isLower = false :=
    Bool.and_eq_false_iff.mpr (.inl (decide_eq_false (before (by decide))))
  have underscore : (c == '_') = false := by
    apply beq_false_of_ne
    rintro rfl
    exact absurd digit (by decide)
  show ((c.isUpper || c.isLower) || c == '_') = false
  rw [upper, lower, underscore]
  rfl

/-- A lexeme that begins with a digit goes on as a number. -/
theorem continues_of_digit {d : Char} (digit : d.isDigit = true) (more : List Char) (c : Char) :
    continues (d :: more) c = continuesNumber (d :: more) c := by
  have point : d ≠ '.' := by
    rintro rfl
    exact absurd digit (by decide)
  have numeric : isNumeric (d :: more) = true := by
    unfold isNumeric
    split
    next here => exact absurd (List.cons.inj here).1 point
    next here => rw [← (List.cons.inj here).1, digit]
    next here => cases here
  rw [continues, not_letter_of_digit digit, numeric, if_neg Bool.false_ne_true, if_pos rfl]

/-- Characters that continue a lexeme, however it goes on, become a part of it. -/
theorem lexFrom_append_of_continues (current cs rest : List Char)
    (visible : ∀ c ∈ cs, isBlank c = false)
    (goesOn : ∀ c ∈ cs, ∀ more, continues (current ++ more) c = true) :
    lexFrom current (cs ++ rest) = lexFrom (current ++ cs) rest := by
  induction cs generalizing current with
  | nil => rw [List.append_nil, List.nil_append]
  | cons c cs ih =>
    have next := goesOn c (List.mem_cons_self ..) []
    rw [List.append_nil] at next
    rw [List.cons_append, lexFrom, visible c (List.mem_cons_self ..), next, if_neg Bool.false_ne_true,
      if_pos rfl, ih, List.append_assoc, List.singleton_append]
    · intro d there
      exact visible d (List.mem_cons_of_mem _ there)
    · intro d there more
      rw [List.append_assoc]
      exact goesOn d (List.mem_cons_of_mem _ there) _

/-- A text that is not blank begins a lexeme. -/
theorem lex_cons (c : Char) (cs : List Char) (visible : isBlank c = false) :
    lex (c :: cs) = lexFrom [c] cs := by
  rw [lex, lexFrom, visible, if_neg Bool.false_ne_true, if_neg (by exact Bool.false_ne_true),
    begun_nil, List.nil_append]

/-- A name is a single lexeme. -/
theorem lex_identifier (name : List Char) (valid : isIdentifier name = true) :
    lex name = [name] := by
  cases name with
  | nil => exact absurd valid Bool.false_ne_true
  | cons first more =>
    obtain ⟨letter, others⟩ := Bool.and_eq_true_iff.mp valid
    have names := List.all_eq_true.mp others
    have visible : isBlank first = false := by
      apply not_blank_of_nameChar
      rw [isNameChar, letter, Bool.true_or]
    have all := lexFrom_append_of_continues [first] more []
      (fun c here => not_blank_of_nameChar (names c here)) (by
        intro c here front
        rw [List.singleton_append, continues, if_pos letter]
        exact names c here)
    rw [List.append_nil] at all
    rw [lex_cons _ _ visible, all]
    rfl

end Abacus
