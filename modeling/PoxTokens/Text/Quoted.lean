import PoxTokens.Text.Printable

/-!
# PoxTokens.Text.Quoted

Quoted text and quoted characters, as listings and messages show them.  Inside
the marks, NUL, tab, carriage return, line feed, the backslash and the mark
itself are written with a backslash; a character that extends the one before it
or has no shape of its own is written as its code point in hexadecimal.  All
other characters stand for themselves.  What is written in hexadecimal digits can be
read in either case of them.
-/

namespace PoxTokens

/-! ## Hexadecimal digits -/

/-- The value of a hexadecimal digit. -/
def hexDigit? (c : Char) : Option Nat :=
  if '0' ≤ c ∧ c ≤ '9' then some (c.toNat - '0'.toNat)
  else if 'a' ≤ c ∧ c ≤ 'f' then some (c.toNat - 'a'.toNat + 10)
  else if 'A' ≤ c ∧ c ≤ 'F' then some (c.toNat - 'A'.toNat + 10)
  else none

/-- The value of a run of hexadecimal digits. -/
def hexValue? (digits : List Char) : Option Nat :=
  digits.foldlM (fun value c => (hexDigit? c).map (16 * value + ·)) 0

/-! ## Quoting -/

/-- Writes a character as its code point: a backslash, `u`, and lower-case
hexadecimal digits without padding, in braces. -/
def escapeCode (c : Char) : List Char :=
  '\\' :: 'u' :: '{' :: (Nat.toDigits 16 c.toNat ++ ['}'])

/-- Writes one character between a pair of marks. -/
def escapeChar (mark c : Char) : List Char :=
  if c = '\x00' then ['\\', '0']
  else if c = '\t' then ['\\', 't']
  else if c = '\r' then ['\\', 'r']
  else if c = '\n' then ['\\', 'n']
  else if c = '\\' then ['\\', '\\']
  else if c = mark then ['\\', mark]
  else if isExtending c || !isPrintable c then escapeCode c
  else [c]

/-- A text between double quotes. -/
def quoteText (cs : List Char) : List Char :=
  '"' :: (cs.flatMap (escapeChar '"') ++ ['"'])

/-- A character between single quotes; here a double quote needs no escape. -/
def quoteChar (c : Char) : List Char :=
  '\'' :: (escapeChar '\'' c ++ ['\''])

/-- `quoteText` on strings. -/
def quotedString (s : String) : String := String.ofList (quoteText s.toList)

/-- `quoteChar` as a string. -/
def quotedChar (c : Char) : String := String.ofList (quoteChar c)

end PoxTokens
