import BraceGrammar.Encoding
import BraceGrammar.Text.Quoted

/-!
# Encoding

Every character has its bytes in the encodings of all of Unicode, and in the others only those of a
smaller range.  A text with a character outside of the range has no bytes; the fault names the first
run of such characters.
-/

namespace BraceGrammar

namespace Encoding

/-- How many characters an encoding has, if it has not all of them. -/
def size? : Encoding → Option Nat
  | .latin1 => some 256
  | .ascii => some 128
  | _ => none

def has (e : Encoding) (c : Char) : Bool := e.size?.all (c.toNat < ·)

/-- A run of characters that an encoding does not have. -/
structure EncodeFault where
  encoding : Encoding
  /-- The first character of the run, with its place. -/
  char : Char
  first : Nat
  /-- The place of the last character of the run. -/
  last : Nat
deriving DecidableEq

/-- A fault over one character shows it, one over several shows where they stand. -/
def EncodeFault.message (f : EncodeFault) : String :=
  let run :=
    if f.first = f.last then
      "character '" ++ String.ofList (Text.escapeCode f.char) ++ "' in position " ++
        toString f.first
    else "characters in position " ++ toString f.first ++ "-" ++ toString f.last
  "'" ++ f.encoding.shownName ++ "' codec can't encode " ++ run ++ ": ordinal not in range(" ++
    toString (f.encoding.size?.getD 0) ++ ")"

def units (c : Char) : List Nat :=
  let n := c.toNat
  if n < 0x10000 then [n]
  else [0xD800 + (n - 0x10000) / 0x400, 0xDC00 + (n - 0x10000) % 0x400]

def encodeChar (e : Encoding) (c : Char) : Bytes :=
  match e with
  | .utf8 | .utf8Signed => String.utf8EncodeChar c
  | .latin1 | .ascii => [c.toNat.toUInt8]
  | .utf16Little => (units c).flatMap fun u => [u.toUInt8, (u / 256).toUInt8]
  | .utf16Big => (units c).flatMap fun u => [(u / 256).toUInt8, u.toUInt8]

def encode (e : Encoding) (text : String) : Except EncodeFault Bytes :=
  let good := text.toList.takeWhile e.has
  match text.toList.dropWhile e.has with
  | [] => .ok (good.flatMap e.encodeChar)
  | c :: rest =>
    .error ⟨e, c, good.length, good.length + (rest.takeWhile fun c => !e.has c).length⟩

/-- What comes in front of the first text of a file. -/
def opening : Encoding → Bytes
  | .utf8Signed => signature
  | _ => []

end Encoding

end BraceGrammar
