import Abacus.Text.Quoted

/-!
# Quoted text can be read

A quoted text shows where it ends, and what it quotes.  One character can be read off
the front (`readEscaped`), whichever of its forms it has, and no form starts like the
closing quote.  So two quoted texts with anything behind them are the same only if they
quote the same text, and then the same stands behind them (`quoted_append_inj`).
-/

namespace Abacus

/-! ## Hexadecimal digits -/

/-- The value of a digit. -/
def hexValue (c : Char) : Nat := if c.isDigit then c.toNat - 48 else c.toNat - 87

/-- The number that digits write. -/
def readHex (digits : List Char) : Nat := digits.foldl (fun n c => 16 * n + hexValue c) 0

theorem readHex_concat (digits : List Char) (c : Char) :
    readHex (digits ++ [c]) = 16 * readHex digits + hexValue c := by
  rw [readHex, List.foldl_append]
  rfl

theorem hexValue_digitChar : ∀ n < 16, hexValue n.digitChar = n := by decide

theorem readHex_toDigits (n : Nat) : readHex (Nat.toDigits 16 n) = n := by
  induction n using Nat.strongRecOn with
  | ind n ih =>
    by_cases small : n < 16
    · rw [Nat.toDigits_of_lt_base small, ← List.nil_append [_], readHex_concat,
        hexValue_digitChar n small]
      exact Nat.zero_add n
    · have large : 16 ≤ n := Nat.le_of_not_lt small
      rw [Nat.toDigits_of_base_le (by decide) large, readHex_concat, ih (n / 16) (by omega),
        hexValue_digitChar _ (by omega)]
      omega

/-- No digit is a brace. -/
theorem brace_notMem_toDigits (n : Nat) : '\x7d' ∉ Nat.toDigits 16 n := by
  induction n using Nat.strongRecOn with
  | ind n ih =>
    have digit : ∀ d < 16, '\x7d' ∉ [Nat.digitChar d] := by decide
    by_cases small : n < 16
    · rw [Nat.toDigits_of_lt_base small]
      exact digit n small
    · have large : 16 ≤ n := Nat.le_of_not_lt small
      rw [Nat.toDigits_of_base_le (by decide) large, List.mem_append]
      rintro (earlier | last)
      · exact ih (n / 16) (by omega) earlier
      · exact digit (n % 16) (by omega) last

/-! ## Characters -/

/-- Reads what follows a backslash, and returns what is left. -/
def readEscape : List Char → Option (Char × List Char)
  | 'u' :: '\x7b' :: cs =>
    let digits := cs.takeWhile (· != '\x7d')
    some (Char.ofNat (readHex digits), cs.drop (digits.length + 1))
  | '0' :: cs => some ('\x00', cs)
  | 't' :: cs => some ('\t', cs)
  | 'n' :: cs => some ('\n', cs)
  | 'r' :: cs => some ('\r', cs)
  | c :: cs => some (c, cs)
  | [] => none

/-- Reads a character inside quotes, and returns what is left.  A quote is the end. -/
def readEscaped : List Char → Option (Char × List Char)
  | [] => none
  | c :: cs => if c = '"' then none else if c = '\\' then readEscape cs else some (c, cs)

theorem readEscaped_codePointEscape (c : Char) (cs : List Char) :
    readEscaped (codePointEscape c ++ cs) = some (c, cs) := by
  have digits : ∀ d ∈ Nat.toDigits 16 c.toNat, (d != '\x7d') = true := by
    intro d here
    rw [bne_iff_ne]
    rintro rfl
    exact brace_notMem_toDigits _ here
  have cut : (Nat.toDigits 16 c.toNat ++ '\x7d' :: cs).takeWhile (· != '\x7d') =
      Nat.toDigits 16 c.toNat := by
    rw [List.takeWhile_append_of_pos digits, List.takeWhile_cons, bne_self_eq_false]
    exact List.append_nil _
  have chars : codePointEscape c ++ cs =
      '\\' :: 'u' :: '\x7b' :: (Nat.toDigits 16 c.toNat ++ '\x7d' :: cs) := by
    simp [codePointEscape]
  rw [chars]
  show some (Char.ofNat (readHex _), _) = _
  rw [cut, readHex_toDigits, Char.ofNat_toNat, List.drop_length_add_append]
  rfl

/-- A character is read from its form, whichever it is. -/
theorem readEscaped_escapeChar (c : Char) (cs : List Char) :
    readEscaped (escapeChar c ++ cs) = some (c, cs) := by
  by_cases special : c ∈ ['\x00', '\t', '\n', '\r', '"', '\\']
  · simp only [List.mem_cons, List.not_mem_nil, or_false] at special
    rcases special with rfl | rfl | rfl | rfl | rfl | rfl <;> rfl
  · simp only [List.mem_cons, List.not_mem_nil, or_false, not_or] at special
    obtain ⟨null, tab, feed, carriage, quote, backslash⟩ := special
    rw [escapeChar, if_neg null, if_neg tab, if_neg feed, if_neg carriage, if_neg quote,
      if_neg backslash]
    split
    · exact readEscaped_codePointEscape c cs
    · rw [List.singleton_append, readEscaped, if_neg quote, if_neg backslash]

theorem escapeChar_append_inj {c d : Char} {cs ds : List Char}
    (same : escapeChar c ++ cs = escapeChar d ++ ds) : c = d ∧ cs = ds := by
  have read := congrArg readEscaped same
  rw [readEscaped_escapeChar, readEscaped_escapeChar] at read
  cases read
  exact ⟨rfl, rfl⟩

theorem escapeChar_append_ne_quote (c : Char) (cs ds : List Char) :
    escapeChar c ++ cs ≠ '"' :: ds := by
  intro same
  have read := congrArg readEscaped same
  rw [readEscaped_escapeChar] at read
  cases read

/-! ## Texts -/

/-- The closing quote is found at the same place on both sides. -/
theorem escaped_append_inj {text other rest rest' : List Char}
    (same : text.flatMap escapeChar ++ '"' :: rest = other.flatMap escapeChar ++ '"' :: rest') :
    text = other ∧ rest = rest' := by
  induction text generalizing other with
  | nil =>
    cases other with
    | nil =>
      cases same
      exact ⟨rfl, rfl⟩
    | cons d other =>
      rw [List.flatMap_cons, List.append_assoc] at same
      exact absurd same.symm (escapeChar_append_ne_quote d _ _)
  | cons c text ih =>
    cases other with
    | nil =>
      rw [List.flatMap_cons, List.append_assoc] at same
      exact absurd same (escapeChar_append_ne_quote c _ _)
    | cons d other =>
      rw [List.flatMap_cons, List.flatMap_cons, List.append_assoc, List.append_assoc] at same
      obtain ⟨rfl, later⟩ := escapeChar_append_inj same
      obtain ⟨rfl, behind⟩ := ih later
      exact ⟨rfl, behind⟩

/-- A quoted text shows where it ends and what it quotes. -/
theorem quoted_append_inj {text other : String} {rest rest' : List Char}
    (same : (quoted text).toList ++ rest = (quoted other).toList ++ rest') :
    text = other ∧ rest = rest' := by
  have chars : ∀ (t : String) (cs : List Char),
      (quoted t).toList ++ cs = '"' :: (t.toList.flatMap escapeChar ++ '"' :: cs) := by
    intro t cs
    simp [quoted]
  rw [chars, chars] at same
  obtain ⟨texts, behind⟩ := escaped_append_inj (List.cons.inj same).2
  exact ⟨String.toList_inj.mp texts, behind⟩

end Abacus
