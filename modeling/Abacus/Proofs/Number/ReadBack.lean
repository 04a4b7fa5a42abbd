import Abacus.Proofs.Number.Numeral
import Abacus.Tree.Basic

/-!
# Numbers read back from their text

The text of a number is NaN, or a sign and a size, and a size is infinity or a
numeral.  Reading undoes this (`Binary64.read_text`), provided that the words of
the style cannot be taken for each other or for a numeral.  What is read is the
canonical pattern: the sign of a zero is kept, and the sign and payload of a NaN
are not.  So constants with the same text are equal.
-/

namespace Abacus

/-! ## The characters of a numeral -/

/-- Whether a character can stand in a signed numeral. -/
def isNumeralChar (c : Char) : Bool := c.isDigit || c == '.' || c == 'e' || c == '-'

theorem isNumeralChar_of_digit {c : Char} (digit : c.isDigit = true) : isNumeralChar c = true := by
  rw [isNumeralChar, digit]
  rfl

theorem isNumeralChar_of_mem_toString {e : Int} {c : Char} (here : c ∈ (toString e).toList) :
    isNumeralChar c = true := by
  have digits : ∀ m : ℕ, c ∈ Nat.toDigits 10 m → isNumeralChar c = true := by
    intro m inside
    exact isNumeralChar_of_digit (Nat.isDigit_of_mem_toDigits (by decide) (by decide) inside)
  rw [Int.toString_eq_repr, Int.repr_eq_if] at here
  split at here
  · rw [Nat.toList_repr] at here
    exact digits _ here
  · rw [String.toList_append, Nat.toList_repr] at here
    rcases List.mem_append.mp here with sign | inside
    · rw [List.mem_singleton.mp sign]
      rfl
    · exact digits _ inside

theorem Numeral.isNumeralChar_of_mem {n : Numeral} {c : Char} (here : c ∈ n.chars) :
    isNumeralChar c = true := by
  obtain ⟨whole, fraction, exponent, real⟩ := n
  rw [chars, List.mem_append, List.mem_append] at here
  rcases here with here | here | here
  · exact isNumeralChar_of_digit (whole.valid c here)
  · cases fraction with
    | none => cases here
    | some f =>
      rcases List.mem_cons.mp here with rfl | here
      · rfl
      · exact isNumeralChar_of_digit (f.valid c here)
  · cases exponent with
    | none => cases here
    | some e =>
      rcases List.mem_cons.mp here with rfl | here
      · rfl
      · exact isNumeralChar_of_mem_toString here

theorem Numeral.exists_digit (n : Numeral) : ∃ d ds, n.chars = d :: ds ∧ d.isDigit = true := by
  obtain ⟨d, ds, begins⟩ := List.exists_cons_of_ne_nil n.whole.begins
  refine ⟨d, ds ++ (n.fractionChars ++ n.exponentChars), ?_, ?_⟩
  · rw [chars, begins, List.cons_append]
  · apply n.whole.valid
    rw [begins]
    exact List.mem_cons_self ..

namespace NumberStyle

/-! ## Reading -/

/-- Reads the absolute value of a number and gives it a sign. -/
def readSize (style : NumberStyle) (negative : Bool) (cs : List Char) : Option Binary64 :=
  if cs = style.infinity.toList then some (.ofMagnitude negative Binary64.infinityMagnitude)
  else (readLiteral cs).map fun d => d.nearest negative

/-- Reads the text of a number. -/
def read (style : NumberStyle) (cs : List Char) : Option Binary64 :=
  if cs = style.nan.toList then some .nan
  else
    match cs with
    | '-' :: size => style.readSize true size
    | size => style.readSize false size

/-- The words of the style cannot be taken for each other or for a numeral. -/
structure Readable (style : NumberStyle) : Prop where
  /-- A positive exponent has no sign. -/
  plus : style.plus = ""
  /-- The words differ. -/
  apart : style.nan ≠ style.infinity
  /-- The word for NaN does not begin as a numeral does. -/
  nan : ∀ c ∈ style.nan.toList.head?, isNumeralChar c = false
  /-- The word for infinity does not begin as a numeral does. -/
  infinity : ∀ c ∈ style.infinity.toList.head?, isNumeralChar c = false

theorem readable_inspection : inspection.Readable where
  plus := rfl
  apart := by decide
  nan c here := by
    cases here
    rfl
  infinity c here := by
    cases here
    rfl

/-- A text that begins as a numeral does is not one of the words. -/
theorem Readable.ne_words {style : NumberStyle} (readable : style.Readable) {c : Char}
    (begins : isNumeralChar c = true) (cs : List Char) :
    c :: cs ≠ style.nan.toList ∧ c :: cs ≠ style.infinity.toList := by
  constructor
  · intro same
    have first := readable.nan c (by rw [← same]; rfl)
    rw [begins] at first
    cases first
  · intro same
    have first := readable.infinity c (by rw [← same]; rfl)
    rw [begins] at first
    cases first

end NumberStyle

namespace Binary64

/-- The text of the absolute value of a number that is not NaN. -/
def sizeText (style : NumberStyle) (x : Binary64) : String :=
  if x.isFinite then String.ofList (x.finiteChars style) else style.infinity

theorem text_of_number (style : NumberStyle) (x : Binary64) (number : x.isNaN = false) :
    x.text style = if x.isNegative then "-" ++ x.sizeText style else x.sizeText style := by
  rw [text, number]
  rfl

section

variable {style : NumberStyle} (readable : style.Readable)

include readable

theorem readSize_sizeText (x : Binary64) (number : x.isNaN = false) (negative : Bool) :
    style.readSize negative (x.sizeText style).toList =
      some (.ofMagnitude negative x.magnitude) := by
  unfold sizeText NumberStyle.readSize
  split
  next finite =>
    obtain ⟨n, chars, nearest⟩ := x.exists_numeral style readable.plus finite
    obtain ⟨d, ds, begins, digit⟩ := n.exists_digit
    have word := (readable.ne_words (isNumeralChar_of_digit digit) ds).2
    rw [String.toList_ofList, ← chars, if_neg (begins ▸ word), n.readLiteral_chars, Option.map_some,
      nearest]
  next infinite =>
    rw [if_pos rfl, magnitude_of_infinite number infinite]

/-- A size is not the word for NaN, and it has no sign. -/
theorem sizeText_unsigned (x : Binary64) :
    (x.sizeText style).toList ≠ style.nan.toList ∧
      ∀ cs, (x.sizeText style).toList ≠ '-' :: cs := by
  unfold sizeText
  split
  next finite =>
    obtain ⟨n, chars, -⟩ := x.exists_numeral style readable.plus finite
    obtain ⟨d, ds, begins, digit⟩ := n.exists_digit
    rw [String.toList_ofList, ← chars, begins]
    refine ⟨(readable.ne_words (isNumeralChar_of_digit digit) ds).1, ?_⟩
    intro cs same
    cases same
    cases digit
  next =>
    refine ⟨fun same => readable.apart (String.toList_inj.mp same).symm, ?_⟩
    intro cs same
    exact (readable.ne_words (c := '-') rfl cs).2 same.symm

/-- The text of a number reads back as its canonical pattern. -/
theorem read_text (x : Binary64) : style.read (x.text style).toList = some x.canonical := by
  unfold NumberStyle.read
  cases number : x.isNaN with
  | true => rw [text, canonical, number, if_pos rfl, if_pos rfl, if_pos rfl]
  | false =>
    have size := x.readSize_sizeText readable number
    obtain ⟨word, unsigned⟩ := x.sizeText_unsigned readable
    rw [x.text_of_number style number, canonical, number, if_neg Bool.false_ne_true]
    cases negative : x.isNegative with
    | true =>
      have signed : ("-" ++ x.sizeText style).toList = '-' :: (x.sizeText style).toList := by
        rw [String.toList_append]
        rfl
      rw [if_pos rfl, signed, if_neg (readable.ne_words (c := '-') rfl _).1]
      show style.readSize true _ = _
      rw [size true, ← negative, x.ofMagnitude_magnitude]
    | false =>
      rw [if_neg Bool.false_ne_true, if_neg word]
      split
      next cs same => exact absurd same (unsigned cs)
      next => rw [size false, ← negative, x.ofMagnitude_magnitude]

end

/-- No text of a number has a character that neither a numeral nor a word has. -/
theorem notMem_text {style : NumberStyle} (plain : style.plus = "") (x : Binary64) {c : Char}
    (numeral : isNumeralChar c = false) (nan : c ∉ style.nan.toList)
    (infinity : c ∉ style.infinity.toList) : c ∉ (x.text style).toList := by
  have size : c ∉ (x.sizeText style).toList := by
    unfold sizeText
    split
    next finite =>
      obtain ⟨n, chars, -⟩ := x.exists_numeral style plain finite
      rw [String.toList_ofList, ← chars]
      intro here
      rw [n.isNumeralChar_of_mem here] at numeral
      cases numeral
    next => exact infinity
  cases number : x.isNaN with
  | true =>
    rw [text, number]
    exact nan
  | false =>
    rw [x.text_of_number style number]
    split
    · rw [String.toList_append, List.mem_append]
      rintro (sign | here)
      · rw [List.mem_singleton.mp sign] at numeral
        cases numeral
      · exact size here
    · exact size

end Binary64

/-- Constants with the same text are equal. -/
theorem Constant.eq_of_text_eq {style : NumberStyle} (readable : style.Readable) {c d : Constant}
    (same : c.value.text style = d.value.text style) : c = d := by
  have value := c.value.read_text readable
  rw [same, d.value.read_text readable, c.isCanonical, d.isCanonical] at value
  obtain ⟨x, canonical⟩ := c
  obtain ⟨y, canonical'⟩ := d
  cases value
  rfl

end Abacus
