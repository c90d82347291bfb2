import BraceGrammar.Text.DecimalDigit

/-!
# Whole numbers in texts

A whole number is written with decimal digits of any script, which may be mixed, after a sign if one
is wanted; an underscore may stand between two digits, and blanks around the whole.  Numbers of more
than 4300 digits are refused.
-/

namespace BraceGrammar

namespace Text

/-- Blanks that may stand around a number. -/
def isBlank (c : Char) : Bool :=
  let n := c.toNat
  (9 ≤ n && n ≤ 13) || n = 0x20 || n = 0x85 || n = 0xA0 || n = 0x1680 ||
    (0x2000 ≤ n && n ≤ 0x200A) || n = 0x2028 || n = 0x2029 || n = 0x202F || n = 0x205F || n = 0x3000

def trimBlanks (text : List Char) : List Char :=
  ((text.dropWhile isBlank).reverse.dropWhile isBlank).reverse

/-- The values of digits with single underscores between them. -/
def digitValues? : List Char → Option (List Nat)
  | [] => none
  | [c] => (decimalDigit? c).map ([·])
  | c :: '_' :: rest => do
    let d ← decimalDigit? c
    let ds ← digitValues? rest
    return d :: ds
  | c :: rest => do
    let d ← decimalDigit? c
    let ds ← digitValues? rest
    return d :: ds

/-- How many digits a number may have. -/
def maxDigits : Nat := 4300

/-- The number without a sign that digits make. -/
def readNatural? (text : List Char) : Option Nat :=
  (digitValues? text).bind fun digits =>
    if digits.length ≤ maxDigits then some (digits.foldl (fun n d => n * 10 + d) 0) else none

/-- The number that a text is. -/
def readInteger? (text : String) : Option Int :=
  match trimBlanks text.toList with
  | '-' :: digits => (readNatural? digits).map fun n => -(n : Int)
  | '+' :: digits => (readNatural? digits).map fun n => (n : Int)
  | digits => (readNatural? digits).map fun n => (n : Int)

end Text

end BraceGrammar
