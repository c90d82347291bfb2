import BraceGrammar.Text.Unprintable

/-!
# Quoted texts

A quoted text stands between two single quotes, or between two double quotes when it holds a single
quote and no double one.  The backslash and the chosen quote are escaped by a backslash, tab, line
feed and carriage return have letters, and every other unprintable character is written by its code
point in two, four or eight lower-case hexadecimal digits.
-/

namespace BraceGrammar

namespace Text

/-- A number in lower-case hexadecimal, with zeros in front up to the width. -/
def hexDigits (width n : Nat) : List Char := (Nat.toDigits 16 n).leftpad width '0'

/-- A code point as a backslash, a letter for the width and the digits. -/
def escapeCode (c : Char) : List Char :=
  let n := c.toNat
  if n < 0x100 then '\\' :: 'x' :: hexDigits 2 n
  else if n < 0x10000 then '\\' :: 'u' :: hexDigits 4 n
  else '\\' :: 'U' :: hexDigits 8 n

/-- One character of a text between two quotes. -/
def escapeChar (quote c : Char) : List Char :=
  if c = quote ∨ c = '\\' then ['\\', c]
  else if c = '\n' then ['\\', 'n']
  else if c = '\r' then ['\\', 'r']
  else if c = '\t' then ['\\', 't']
  else if isUnprintable c then escapeCode c
  else [c]

/-- Double quotes serve only where they save an escape. -/
def chooseQuote (text : List Char) : Char :=
  if '\'' ∈ text ∧ '"' ∉ text then '"' else '\''

/-- A text between quotes. -/
def quoted (text : String) : String :=
  let quote := chooseQuote text.toList
  String.ofList (quote :: text.toList.flatMap (escapeChar quote) ++ [quote])

/-- A text with every character outside of ASCII written by its code point. -/
def toAscii (text : String) : String :=
  String.ofList (text.toList.flatMap fun c => if c.toNat < 128 then [c] else escapeCode c)

end Text

end BraceGrammar
