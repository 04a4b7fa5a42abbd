import Abacus.Text.CodePoints

/-!
# Quoted text

A quoted text stands between double quotes.  Quotes, backslashes and the usual
control characters are escaped by a backslash.  Any other character that cannot
be seen, that display leaves out, or that would attach to the one before is
written by its code point.  All other characters stand for themselves.
-/

namespace Abacus

/-- A character by its code point, in lowercase hexadecimal digits. -/
def codePointEscape (c : Char) : List Char :=
  ['\\', 'u', '\x7b'] ++ Nat.toDigits 16 c.toNat ++ ['\x7d']

/-- The form of a character inside quotes. -/
def escapeChar (c : Char) : List Char :=
  if c = '\x00' then ['\\', '0']
  else if c = '\t' then ['\\', 't']
  else if c = '\n' then ['\\', 'n']
  else if c = '\r' then ['\\', 'r']
  else if c = '"' then ['\\', '"']
  else if c = '\\' then ['\\', '\\']
  else if isExtending c || isIgnorable c || isUnprintable c then codePointEscape c
  else [c]

/-- A text in double quotes. -/
def quoted (text : String) : String :=
  String.ofList ('"' :: text.toList.flatMap escapeChar ++ ['"'])

end Abacus
