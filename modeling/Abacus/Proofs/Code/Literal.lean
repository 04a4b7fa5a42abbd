import Abacus.Proofs.Code.Text
import Abacus.Proofs.Number.ReadBack
import Abacus.Proofs.Number.TiesToEven

/-!
# Constants in code

In code a constant is one of the words for NaN and the infinities, or a sign and a
decimal literal.  The literal has a point or an exponent, so it is never the literal
of an integer, and its exact value rounds to the constant.  `Spells` says this of a
text and a number, and says nothing of how the digits were found.

The code of a constant spells the constant (`Binary64.spells_text`), and a text spells
one number at most (`Spells.unique`).  So constants with the same code are equal.
-/

namespace Abacus

/-! ## Spelling -/

/-- The words for the numbers that have no literal, and what they stand for. -/
def specialWords : List (List Char × Binary64) :=
  [("NAN".toList, .nan), ("INFINITY".toList, .ofMagnitude false Binary64.infinityMagnitude),
    ("-INFINITY".toList, .ofMagnitude true Binary64.infinityMagnitude)]

/-- A text with a minus sign if it is negative. -/
def signed (negative : Bool) (cs : List Char) : List Char := if negative then '-' :: cs else cs

/-- The text is code for the number: a word, or a sign and a literal of a double that
rounds to the number. -/
inductive Spells : List Char → Binary64 → Prop where
  | word {cs : List Char} {x : Binary64} : (cs, x) ∈ specialWords → Spells cs x
  | literal {negative : Bool} {cs : List Char} {d : Decimal} {x : Binary64} :
    '.' ∈ cs ∨ 'e' ∈ cs → readLiteral cs = some d → x.isFinite = true → x.isNegative = negative →
    x.Nearest d.value → Spells (signed negative cs) x

/-! ## A text spells one number -/

/-- A literal begins with a digit or a point. -/
theorem exists_head_of_readLiteral {cs : List Char} {d : Decimal} (read : readLiteral cs = some d) :
    ∃ c rest, cs = c :: rest ∧ (c.isDigit = true ∨ c = '.') := by
  cases cs with
  | nil => cases read
  | cons c rest =>
    refine ⟨c, rest, rfl, ?_⟩
    by_contra other
    rw [not_or, Bool.not_eq_true] at other
    rw [readLiteral, List.takeWhile_cons_of_neg (by simp [other.1]),
      List.dropWhile_cons_of_neg (by simp [other.1])] at read
    simp [other.2] at read

/-- A literal is not a word, with a sign or without one. -/
theorem signed_notMem_specialWords {cs : List Char} {d : Decimal} (read : readLiteral cs = some d)
    (negative : Bool) (x : Binary64) : (signed negative cs, x) ∉ specialWords := by
  obtain ⟨c, rest, rfl, head⟩ := exists_head_of_readLiteral read
  intro word
  have letter : c = 'N' ∨ c = 'I' ∨ c = '-' := by
    cases negative <;> simp [signed, specialWords] at word <;> tauto
  rcases letter with rfl | rfl | rfl <;> simp at head

/-- The sign of a literal can be told from the text. -/
theorem signed_inj {m n : Bool} {cs ds : List Char} {d e : Decimal}
    (first : readLiteral cs = some d) (second : readLiteral ds = some e)
    (same : signed m cs = signed n ds) : m = n ∧ cs = ds := by
  have unsigned : ∀ {cs : List Char} {d : Decimal}, readLiteral cs = some d →
      ∀ rest, cs ≠ '-' :: rest := by
    intro cs d read rest dashed
    obtain ⟨c, rest', begins, head⟩ := exists_head_of_readLiteral read
    rw [begins, List.cons.injEq] at dashed
    rw [dashed.1] at head
    simp at head
  cases m with
  | false =>
    cases n with
    | false => exact ⟨rfl, same⟩
    | true => exact absurd same (unsigned first ds)
  | true =>
    cases n with
    | false => exact absurd same.symm (unsigned second cs)
    | true => exact ⟨rfl, (List.cons.inj same).2⟩

theorem specialWords_unique {cs : List Char} {x y : Binary64} (first : (cs, x) ∈ specialWords)
    (second : (cs, y) ∈ specialWords) : x = y := by
  simp only [specialWords, List.mem_cons, Prod.mk.injEq, List.not_mem_nil, or_false] at first second
  rcases first with ⟨rfl, rfl⟩ | ⟨rfl, rfl⟩ | ⟨rfl, rfl⟩
  · have only : y = .nan := by simpa using second
    exact only.symm
  · have only : y = .ofMagnitude false Binary64.infinityMagnitude := by simpa using second
    exact only.symm
  · have only : y = .ofMagnitude true Binary64.infinityMagnitude := by simpa using second
    exact only.symm

/-- A text spells one number at most. -/
theorem Spells.unique {cs : List Char} {x y : Binary64} (first : Spells cs x)
    (second : Spells cs y) : x = y := by
  cases first with
  | word known =>
    cases second with
    | word known' => exact specialWords_unique known known'
    | literal _ read => exact absurd known (signed_notMem_specialWords read _ _)
  | @literal negative ds d _ _ read finite sign nearest =>
    generalize text : signed negative ds = cs at second
    cases second with
    | word known => exact absurd (text ▸ known) (signed_notMem_specialWords read _ _)
    | literal _ read' finite' sign' nearest' =>
      obtain ⟨rfl, rfl⟩ := signed_inj read read' text
      cases read.symm.trans read'
      exact nearest.unique nearest' (Binary64.not_isNaN_of_isFinite finite)
        (Binary64.not_isNaN_of_isFinite finite') (sign.trans sign'.symm)

/-! ## The code of a constant -/

theorem Numeral.real_chars (n : Numeral) : '.' ∈ n.chars ∨ 'e' ∈ n.chars := by
  obtain ⟨whole, fraction, exponent, real⟩ := n
  cases fraction with
  | some f =>
    left
    simp [chars, fractionChars]
  | none =>
    right
    cases exponent with
    | some e => simp [chars, exponentChars]
    | none => simp at real

namespace Binary64

theorem toList_text_of_number (x : Binary64) (number : x.isNaN = false) :
    (x.text .code).toList = signed x.isNegative (x.sizeText .code).toList := by
  rw [x.text_of_number .code number, signed]
  split
  · rw [String.toList_append]
    rfl
  · rfl

/-- The code of a number spells it, with one NaN for all of them. -/
theorem spells_text (x : Binary64) : Spells (x.text .code).toList x.canonical := by
  cases number : x.isNaN with
  | true =>
    rw [text, canonical, number, if_pos rfl, if_pos rfl]
    exact .word (List.mem_cons_self ..)
  | false =>
    rw [x.toList_text_of_number number, canonical, number, if_neg Bool.false_ne_true, sizeText]
    split
    next finite =>
      obtain ⟨n, chars, covers⟩ := x.exists_numeral_covers .code rfl
      rw [String.toList_ofList, ← chars]
      exact .literal n.real_chars n.readLiteral_chars finite rfl covers.nearest
    next infinite =>
      rw [← x.ofMagnitude_magnitude, magnitude_of_infinite number infinite]
      generalize x.isNegative = negative
      apply Spells.word
      cases negative with
      | false => exact .tail _ (.head _)
      | true => exact .tail _ (.tail _ (.head _))

end Binary64

/-- The code of a constant, for any pattern that it is made from, spells the constant and
no other number: it is a word, or a sign and a literal with a point or an exponent whose
value rounds to the constant, the sign of zero included.  So constants have the same
code exactly if they are equal. -/
theorem spells_code_iff (style : CodeStyle) :
    (∀ x y : Binary64,
      Spells ((Expr.const (.ofNumber x)).code style).toList y ↔ y = (Constant.ofNumber x).value) ∧
    ∀ c d : Constant, (Expr.const c).code style = (Expr.const d).code style ↔ c = d := by
  have spells : ∀ c : Constant, Spells ((Expr.const c).code style).toList c.value := by
    intro c
    have canonical := c.value.spells_text
    rw [c.isCanonical] at canonical
    rw [Expr.code_const]
    exact canonical
  constructor
  · intro x y
    constructor
    · intro other
      exact other.unique (spells _)
    · rintro rfl
      exact spells _
  · intro c d
    constructor
    · intro same
      have value := (spells c).unique (same ▸ spells d)
      obtain ⟨x, canonical⟩ := c
      obtain ⟨y, canonical'⟩ := d
      cases value
      rfl
    · rintro rfl
      rfl

end Abacus
