import Abacus.Number.Text
import Abacus.Proofs.Number.Nearest

/-!
# Numerals

A *numeral* is the text of a number taken apart: digits before the point,
digits behind it, and an exponent.  It always has a point or an exponent, so it
is never the text of a whole number.

Between a number and its text stand two steps, and each is undone.  The digits
of the shortest decimal are laid out as a numeral of the same value
(`Decimal.exists_numeral`), and reading the characters of a numeral gives back
its digits and its exponent (`readLiteral_chars`).  With the shortest decimal
reading back, so does the text (`Binary64.exists_numeral`).
-/

namespace Abacus

/-! ## Digits -/

/-- A sequence of digits, at least one. -/
structure Digits where
  /-- The characters. -/
  chars : List Char
  /-- There is one. -/
  begins : chars ≠ []
  /-- Each is a digit. -/
  valid : ∀ c ∈ chars, c.isDigit = true

namespace Digits

theorem isDigit_of_mem_zeros {k : ℕ} {c : Char} (here : c ∈ List.replicate k '0') :
    c.isDigit = true := by
  rw [List.eq_of_mem_replicate here]
  rfl

/-- The digit zero. -/
def zero : Digits := ⟨['0'], List.cons_ne_nil _ _, fun _ => isDigit_of_mem_zeros (k := 1)⟩

/-- The digits with zeros in front. -/
def padLeft (d : Digits) (k : ℕ) : Digits where
  chars := List.replicate k '0' ++ d.chars
  begins := List.append_ne_nil_of_right_ne_nil _ d.begins
  valid := List.forall_mem_append.mpr ⟨fun _ => isDigit_of_mem_zeros, d.valid⟩

/-- The digits with zeros behind them. -/
def padRight (d : Digits) (k : ℕ) : Digits where
  chars := d.chars ++ List.replicate k '0'
  begins := List.append_ne_nil_of_left_ne_nil d.begins _
  valid := List.forall_mem_append.mpr ⟨d.valid, fun _ => isDigit_of_mem_zeros⟩

/-- The first digits. -/
def take (d : Digits) (k : ℕ) : Digits where
  chars := d.chars.take (k + 1)
  begins := by simpa using d.begins
  valid := fun c here => d.valid c (List.mem_of_mem_take here)

/-- The digits behind the first ones. -/
def drop (d : Digits) (k : ℕ) (more : k < d.chars.length) : Digits where
  chars := d.chars.drop k
  begins := by simpa using more
  valid := fun c here => d.valid c (List.mem_of_mem_drop here)

end Digits

/-! ## Numerals -/

/-- The text of a number, taken apart. -/
structure Numeral where
  /-- The digits before the point. -/
  whole : Digits
  /-- The digits behind the point, if there is one. -/
  fraction : Option Digits
  /-- The exponent, if there is one. -/
  exponent : Option Int
  /-- There is a point or an exponent. -/
  real : fraction ≠ none ∨ exponent ≠ none

namespace Numeral

/-- The characters of the point and the digits behind it. -/
def fractionChars (n : Numeral) : List Char :=
  match n.fraction with
  | none => []
  | some f => '.' :: f.chars

/-- The characters of the exponent. -/
def exponentChars (n : Numeral) : List Char :=
  match n.exponent with
  | none => []
  | some e => 'e' :: (toString e).toList

/-- The characters of a numeral. -/
def chars (n : Numeral) : List Char := n.whole.chars ++ (n.fractionChars ++ n.exponentChars)

/-- The digits behind the point. -/
def places (n : Numeral) : List Char :=
  match n.fraction with
  | none => []
  | some f => f.chars

/-- What a numeral stands for. -/
def decimal (n : Numeral) : Decimal :=
  ⟨Nat.ofDigitChars 10 (n.whole.chars ++ n.places) 0, n.exponent.getD 0 - n.places.length⟩

end Numeral

/-! ## Reading -/

/-- Reads a sequence of digits as a natural number. -/
def readDigits (cs : List Char) : Option Nat :=
  if cs ≠ [] ∧ cs.all Char.isDigit then some (Nat.ofDigitChars 10 cs 0) else none

/-- Reads the exponent of a number, which may have a sign. -/
def readExponent : List Char → Option Int
  | '-' :: cs => (readDigits cs).map Int.negOfNat
  | '+' :: cs => (readDigits cs).map Int.ofNat
  | cs => (readDigits cs).map Int.ofNat

/-- Reads what follows the digits of a number: nothing, or an exponent mark and an exponent. -/
def readScale : List Char → Option Int
  | [] => some 0
  | mark :: cs => if mark = 'e' ∨ mark = 'E' then readExponent cs else none

/-- Reads a decimal literal of a C double.  It has a point or an exponent, and a
digit before or behind the point. -/
def readLiteral (cs : List Char) : Option Decimal :=
  let whole := cs.takeWhile Char.isDigit
  match cs.dropWhile Char.isDigit with
  | [] => none
  | '.' :: more =>
    let fraction := more.takeWhile Char.isDigit
    if whole ++ fraction = [] then none
    else (readScale (more.dropWhile Char.isDigit)).map fun e =>
      ⟨Nat.ofDigitChars 10 (whole ++ fraction) 0, e - fraction.length⟩
  | mark :: more =>
    if whole = [] then none
    else (readScale (mark :: more)).map fun e => ⟨Nat.ofDigitChars 10 whole 0, e⟩

example : readLiteral "12.50e-3".toList = some ⟨1250, -5⟩ ∧ readLiteral "12".toList = none := by
  decide

theorem readDigits_toDigits (n : Nat) : readDigits (Nat.toDigits 10 n) = some n := by
  have digits : (Nat.toDigits 10 n).all Char.isDigit = true := by
    rw [List.all_eq_true]
    intro c here
    exact Nat.isDigit_of_mem_toDigits (by decide) (by decide) here
  rw [readDigits, if_pos ⟨Nat.toDigits_ne_nil, digits⟩, Nat.ofDigitChars_ten_toDigits]

theorem readExponent_of_digits (cs : List Char) (digits : ∀ c ∈ cs, c.isDigit = true) :
    readExponent cs = (readDigits cs).map Int.ofNat := by
  unfold readExponent
  split
  next => exact absurd (digits '-' (List.mem_cons_self ..)) (by decide)
  next => exact absurd (digits '+' (List.mem_cons_self ..)) (by decide)
  next => rfl

theorem readExponent_toString (e : Int) : readExponent (toString e).toList = some e := by
  rw [Int.toString_eq_repr, Int.repr_eq_if]
  split
  next nonnegative =>
    rw [Nat.toList_repr, readExponent_of_digits _ fun c here =>
      Nat.isDigit_of_mem_toDigits (by decide) (by decide) here, readDigits_toDigits]
    exact congrArg some (Int.toNat_of_nonneg nonnegative)
  next negative =>
    rw [String.toList_append, Nat.toList_repr]
    have signed : readExponent ("-".toList ++ Nat.toDigits 10 (-e).toNat) =
        (readDigits (Nat.toDigits 10 (-e).toNat)).map Int.negOfNat := rfl
    rw [signed, readDigits_toDigits, Option.map_some, Int.negOfNat_eq, Int.ofNat_eq_natCast,
      Int.toNat_of_nonneg (by omega), Int.neg_neg]

namespace Numeral

theorem readScale_exponentChars (n : Numeral) :
    readScale n.exponentChars = some (n.exponent.getD 0) := by
  unfold exponentChars
  cases n.exponent with
  | none => rfl
  | some e => exact readExponent_toString e

/-- No digit of a number is at the start of its exponent. -/
theorem takeWhile_exponentChars (n : Numeral) :
    n.exponentChars.takeWhile Char.isDigit = [] ∧
      n.exponentChars.dropWhile Char.isDigit = n.exponentChars := by
  unfold exponentChars
  cases n.exponent with
  | none => exact ⟨rfl, rfl⟩
  | some e => exact ⟨rfl, rfl⟩

/-- A numeral reads as what it stands for. -/
theorem readLiteral_chars (n : Numeral) : readLiteral n.chars = some n.decimal := by
  have scale := n.readScale_exponentChars
  obtain ⟨taken, dropped⟩ := n.takeWhile_exponentChars
  obtain ⟨whole, fraction, exponent, real⟩ := n
  rw [chars, readLiteral, List.takeWhile_append_of_pos whole.valid,
    List.dropWhile_append_of_pos whole.valid]
  cases fraction with
  | none =>
    cases exponent with
    | none =>
      rcases real with absent | absent
      · exact absurd rfl absent
      · exact absurd rfl absent
    | some e =>
      -- without a point the literal goes on with its exponent mark
      have rest : fractionChars ⟨whole, none, some e, real⟩ ++
          exponentChars ⟨whole, none, some e, real⟩ = 'e' :: (toString e).toList := rfl
      have mark : ('e' :: (toString e).toList).takeWhile Char.isDigit = [] ∧
          ('e' :: (toString e).toList).dropWhile Char.isDigit = 'e' :: (toString e).toList :=
        ⟨rfl, rfl⟩
      have read : readScale ('e' :: (toString e).toList) = some e := scale
      rw [rest, mark.1, mark.2, List.append_nil]
      show (if whole.chars = [] then none
        else (readScale ('e' :: (toString e).toList)).map fun e => _) = _
      rw [if_neg whole.begins, read]
      simp [decimal, places]
  | some f =>
    have rest : fractionChars ⟨whole, some f, exponent, real⟩ = '.' :: f.chars := rfl
    have digits : whole.chars ++ f.chars ≠ [] := List.append_ne_nil_of_left_ne_nil whole.begins _
    have point : ∀ cs, ('.' :: cs).takeWhile Char.isDigit = [] ∧
        ('.' :: cs).dropWhile Char.isDigit = '.' :: cs := fun _ => ⟨rfl, rfl⟩
    rw [rest, List.cons_append, (point _).1, (point _).2, List.append_nil]
    simp only [List.takeWhile_append_of_pos f.valid, List.dropWhile_append_of_pos f.valid, taken,
      dropped, List.append_nil, digits, if_false, scale, Option.map_some]
    rfl

/-! ## Writing -/

/-- Zeros before and behind the digits of a numeral count for its exponent alone. -/
theorem value_decimal (n : Numeral) (digits : List Char) (j k : ℕ)
    (padded : n.whole.chars ++ n.places =
      List.replicate j '0' ++ (digits ++ List.replicate k '0')) :
    n.decimal.value = (Nat.ofDigitChars 10 digits 0 : ℚ) *
      10 ^ (n.exponent.getD 0 - n.places.length + k) := by
  have coefficient : n.decimal.coefficient = 10 ^ k * Nat.ofDigitChars 10 digits 0 := by
    rw [decimal, padded, Nat.ofDigitChars_append, Nat.ofDigitChars_append,
      Nat.ofDigitChars_replicate_zero, Nat.ofDigitChars_replicate_zero, Nat.mul_zero]
  rw [Decimal.value, coefficient, zpow_add₀ (by norm_num), zpow_natCast]
  push_cast
  rw [decimal]
  ring

end Numeral

/-- The text is a numeral, of the value that the digits have if the first one counts `10 ^ e`. -/
def Digits.LaidOut (d : Digits) (e : ℤ) (text : List Char) : Prop :=
  ∃ n : Numeral, n.chars = text ∧
    n.decimal.value = (Nat.ofDigitChars 10 d.chars 0 : ℚ) * 10 ^ (e + 1 - d.chars.length)

theorem Digits.laidOut_positional (d : Digits) (e : ℤ) :
    d.LaidOut e (positional d.chars e) := by
  by_cases negative : e < 0
  · -- the digits stand behind the point, after some zeros
    let n : Numeral := ⟨zero, some (d.padLeft (-e - 1).toNat), none, .inl (Option.some_ne_none _)⟩
    have padded : n.whole.chars ++ n.places =
        List.replicate ((-e - 1).toNat + 1) '0' ++ (d.chars ++ List.replicate 0 '0') := by
      simp [n, Numeral.places, padLeft, zero, List.replicate_succ]
    refine ⟨n, ?_, ?_⟩
    · simp [n, Numeral.chars, Numeral.fractionChars, Numeral.exponentChars, positional, negative,
        padLeft, zero]
    · rw [n.value_decimal d.chars _ 0 padded]
      congr 2
      simp only [n, Numeral.places, padLeft, Option.getD_none, List.length_append,
        List.length_replicate]
      omega
  · by_cases inside : e.toNat + 1 < d.chars.length
    · -- the point stands between two digits
      let n : Numeral := ⟨d.take e.toNat, some (d.drop (e.toNat + 1) inside), none,
        .inl (Option.some_ne_none _)⟩
      have padded : n.whole.chars ++ n.places =
          List.replicate 0 '0' ++ (d.chars ++ List.replicate 0 '0') := by
        simp [n, Numeral.places, take, drop]
      refine ⟨n, ?_, ?_⟩
      · simp [n, Numeral.chars, Numeral.fractionChars, Numeral.exponentChars, positional, negative,
          take, drop, Nat.not_le_of_lt inside, Nat.sub_eq_zero_of_le inside.le]
      · rw [n.value_decimal d.chars 0 0 padded]
        congr 2
        simp only [n, Numeral.places, drop, Option.getD_none, List.length_drop]
        omega
    · -- zeros fill up to the point, and one more stands behind it
      have all := Nat.le_of_not_lt inside
      let n : Numeral := ⟨d.padRight (e.toNat + 1 - d.chars.length), some zero, none,
        .inl (Option.some_ne_none _)⟩
      have padded : n.whole.chars ++ n.places = List.replicate 0 '0' ++ (d.chars ++
          List.replicate (e.toNat + 1 - d.chars.length + 1) '0') := by
        simp [n, Numeral.places, padRight, zero, List.replicate_succ']
      refine ⟨n, ?_, ?_⟩
      · simp [n, Numeral.chars, Numeral.fractionChars, Numeral.exponentChars, positional, negative,
          padRight, zero, all, List.take_of_length_le all]
      · rw [n.value_decimal d.chars 0 _ padded]
        congr 2
        simp only [n, Numeral.places, zero, Option.getD_none, List.length_singleton]
        omega

theorem Digits.laidOut_scientific (d : Digits) (e : ℤ) :
    d.LaidOut e (scientific "" d.chars e) := by
  have size := List.length_pos_iff.mpr d.begins
  by_cases more : 1 < d.chars.length
  · let n : Numeral := ⟨d.take 0, some (d.drop 1 more), some e, .inr (Option.some_ne_none _)⟩
    have padded : n.whole.chars ++ n.places =
        List.replicate 0 '0' ++ (d.chars ++ List.replicate 0 '0') := by
      simp [n, Numeral.places, take, drop, -List.drop_one]
    refine ⟨n, ?_, ?_⟩
    · have behind : d.chars.drop 1 ≠ [] := (d.drop 1 more).begins
      simp [n, Numeral.chars, Numeral.fractionChars, Numeral.exponentChars, scientific, take, drop,
        behind, -List.drop_one]
    · rw [n.value_decimal d.chars 0 0 padded]
      congr 2
      simp only [n, Numeral.places, drop, Option.getD_some, List.length_drop]
      omega
  · let n : Numeral := ⟨d, none, some e, .inr (Option.some_ne_none _)⟩
    have padded : n.whole.chars ++ n.places =
        List.replicate 0 '0' ++ (d.chars ++ List.replicate 0 '0') := by
      simp [n, Numeral.places]
    have single : d.chars.drop 1 = [] ∧ d.chars.take 1 = d.chars :=
      ⟨List.drop_eq_nil_of_le (Nat.le_of_not_lt more), List.take_of_length_le (Nat.le_of_not_lt more)⟩
    refine ⟨n, ?_, ?_⟩
    · simp [n, Numeral.chars, Numeral.fractionChars, Numeral.exponentChars, scientific, single,
        -List.drop_one]
    · rw [n.value_decimal d.chars 0 0 padded]
      congr 2
      simp only [n, Numeral.places, Option.getD_some, List.length_nil]
      omega

/-- The digits of a number are the significant ones and zeros behind them. -/
theorem toDigits_eq_significantDigits (c : ℕ) :
    ∃ k, Nat.toDigits 10 c = significantDigits c ++ List.replicate k '0' := by
  refine ⟨((Nat.toDigits 10 c).reverse.takeWhile (· == '0')).length, ?_⟩
  have zeros : (Nat.toDigits 10 c).reverse.takeWhile (· == '0') =
      List.replicate ((Nat.toDigits 10 c).reverse.takeWhile (· == '0')).length '0' := by
    apply List.eq_replicate_of_mem
    intro c here
    exact beq_iff_eq.mp (List.all_eq_true.mp List.all_takeWhile c here)
  apply List.reverse_injective
  rw [significantDigits, List.reverse_append, List.reverse_reverse, List.reverse_replicate, ← zeros,
    List.takeWhile_append_dropWhile]

/-- The text of a positive decimal is a numeral of the same value. -/
theorem Decimal.exists_numeral (style : NumberStyle) (plain : style.plus = "") (d : Decimal)
    (positive : 0 < d.coefficient) :
    ∃ n : Numeral, n.chars = d.chars style ∧ n.decimal.value = d.value := by
  obtain ⟨k, split⟩ := toDigits_eq_significantDigits d.coefficient
  have valid : ∀ c ∈ significantDigits d.coefficient, c.isDigit = true := by
    intro c here
    apply Nat.isDigit_of_mem_toDigits (by decide : 0 < 10) (by decide : 10 ≤ 10)
    rw [split]
    exact List.mem_append_left _ here
  have coefficient :
      d.coefficient = 10 ^ k * Nat.ofDigitChars 10 (significantDigits d.coefficient) 0 := by
    rw [← Nat.ofDigitChars_replicate_zero, ← Nat.ofDigitChars_append, ← split,
      Nat.ofDigitChars_ten_toDigits]
  have begins : significantDigits d.coefficient ≠ [] := by
    intro none_left
    rw [none_left, Nat.ofDigitChars_nil, Nat.mul_zero] at coefficient
    omega
  have length : ((Nat.toDigits 10 d.coefficient).length : ℤ) =
      (significantDigits d.coefficient).length + k := by
    rw [split]
    simp
  have value : (Nat.ofDigitChars 10 (significantDigits d.coefficient) 0 : ℚ) *
      10 ^ (d.exponent + (Nat.toDigits 10 d.coefficient).length - 1 + 1 -
        (significantDigits d.coefficient).length) = d.value := by
    have exponent : d.exponent + (Nat.toDigits 10 d.coefficient).length - 1 + 1 -
        (significantDigits d.coefficient).length = (k : ℤ) + d.exponent := by omega
    have cast : (d.coefficient : ℚ) =
        10 ^ k * Nat.ofDigitChars 10 (significantDigits d.coefficient) 0 := by
      exact_mod_cast coefficient
    rw [exponent, zpow_add₀ (by norm_num), zpow_natCast, Decimal.value, cast]
    ring
  rw [Decimal.chars, plain, ← value]
  let digits : Digits := ⟨significantDigits d.coefficient, begins, valid⟩
  split
  · exact digits.laidOut_positional _
  · exact digits.laidOut_scientific _

/-- The text of the absolute value of a number is a numeral in its rounding interval. -/
theorem Binary64.exists_numeral_covers (style : NumberStyle) (plain : style.plus = "")
    (x : Binary64) :
    ∃ n : Numeral, n.chars = x.finiteChars style ∧ x.Covers n.decimal.value := by
  unfold finiteChars
  split
  next zero =>
    have value : Decimal.value ⟨Nat.ofDigitChars 10 ['0', '0'] 0, 0 - 1⟩ = 0 := by
      simp [Decimal.value, Nat.ofDigitChars]
    refine ⟨⟨.zero, some .zero, none, .inl (Option.some_ne_none _)⟩, rfl, ?_⟩
    exact value ▸ covers_zero zero
  next nonzero =>
    obtain ⟨n, chars, value⟩ := (x.shortest style.tie).exists_numeral style plain
      (coefficient_shortest_pos style.tie nonzero)
    exact ⟨n, chars, value ▸ covers_shortest style.tie nonzero⟩

/-- The text of a finite number is a numeral that reads as its absolute value. -/
theorem Binary64.exists_numeral (style : NumberStyle) (plain : style.plus = "") (x : Binary64)
    (finite : x.isFinite = true) :
    ∃ n : Numeral, n.chars = x.finiteChars style ∧
      ∀ negative, n.decimal.nearest negative = .ofMagnitude negative x.magnitude := by
  obtain ⟨n, chars, covers⟩ := x.exists_numeral_covers style plain
  exact ⟨n, chars, nearest_of_covers finite n.decimal covers⟩

end Abacus
