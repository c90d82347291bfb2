import BraceGrammar.Encoding
import BraceGrammar.Text.Quoted

/-!
# Decoding

Each encoding says what stands in front of some bytes: a character, or a fault, and over how many
bytes (`Front`).  `decode` repeats this up to the end of the bytes or to the first fault, which is
reported with its place.
-/

namespace BraceGrammar

namespace Encoding

/-- What can be wrong with bytes. -/
inductive Malformation
  /-- UTF-8: no character begins with this byte. -/
  | startByte
  /-- UTF-8: the byte after these does not go on with the character. -/
  | continuationByte
  /-- The bytes end within a character. -/
  | unexpectedEnd
  /-- The byte is not one of the first so many. -/
  | range (size : Nat)
  /-- UTF-16: half a unit is left. -/
  | truncated
  /-- UTF-16: the second half of a pair without a first. -/
  | loneSecond
  /-- UTF-16: the first half of a pair without a second. -/
  | loneFirst
deriving DecidableEq

def Malformation.message : Malformation → String
  | .startByte => "invalid start byte"
  | .continuationByte => "invalid continuation byte"
  | .unexpectedEnd => "unexpected end of data"
  | .range size => "ordinal not in range(" ++ toString size ++ ")"
  | .truncated => "truncated data"
  | .loneSecond => "illegal encoding"
  | .loneFirst => "illegal UTF-16 surrogate"

/-- A stretch of bytes that an encoding has no character for. -/
structure DecodeFault where
  encoding : Encoding
  /-- The first byte of the stretch, with its place. -/
  byte : UInt8
  first : Nat
  /-- The place of the last byte of the stretch. -/
  last : Nat
  cause : Malformation
deriving DecidableEq

/-- A fault over one byte shows the byte, one over several shows where they stand. -/
def DecodeFault.message (f : DecodeFault) : String :=
  let stretch :=
    if f.first = f.last then
      "byte 0x" ++ String.ofList (Text.hexDigits 2 f.byte.toNat) ++ " in position " ++
        toString f.first
    else "bytes in position " ++ toString f.first ++ "-" ++ toString f.last
  "'" ++ f.encoding.shownName ++ "' codec can't decode " ++ stretch ++ ": " ++ f.cause.message

/-- What stands in front of some bytes, and how many bytes it takes after the first. -/
inductive Front
  | char (c : Char) (more : Nat)
  | fault (cause : Malformation) (more : Nat)

/-! ## UTF-8 -/

/-- Bytes that go on with a character. -/
def isContinuation (b : UInt8) : Bool := 0x80 ≤ b && b < 0xC0

/-- The six bits that a byte adds to a character. -/
def addBits (high : Nat) (b : UInt8) : Nat := high * 64 + b.toNat % 64

/-- Whether a byte may come second after a first byte of a longer character: it may not when the
character would be written with fewer bytes, is half a pair, or is beyond the last one. -/
def isSecond (b second : UInt8) : Bool :=
  isContinuation second &&
    !((b = 0xE0 && second < 0xA0) || (b = 0xED && 0xA0 ≤ second) ||
      (b = 0xF0 && second < 0x90) || (b = 0xF4 && 0x90 ≤ second))

/-- Goes on with a character of which `taken` bytes after the first are known to be good and
`missing` are not looked at yet. -/
def continueUtf8 (high taken : Nat) : Nat → Bytes → Front
  | 0, _ => .char (.ofNat high) taken
  | _ + 1, [] => .fault .unexpectedEnd taken
  | missing + 1, b :: rest =>
    if isContinuation b then continueUtf8 (addBits high b) (taken + 1) missing rest
    else .fault .continuationByte taken

/-- The second byte is judged with the first, those after it are not. -/
def longUtf8 (b : UInt8) (high missing : Nat) : Bytes → Front
  | [] => .fault .unexpectedEnd 0
  | second :: rest =>
    if isSecond b second then continueUtf8 (addBits high second) 1 missing rest
    else .fault .continuationByte 0

def frontUtf8 (b : UInt8) (rest : Bytes) : Front :=
  if b < 0x80 then .char (.ofNat b.toNat) 0
  else if b < 0xC2 then .fault .startByte 0
  else if b < 0xE0 then longUtf8 b (b.toNat - 0xC0) 0 rest
  else if b < 0xF0 then longUtf8 b (b.toNat - 0xE0) 1 rest
  else if b < 0xF5 then longUtf8 b (b.toNat - 0xF0) 2 rest
  else .fault .startByte 0

/-! ## UTF-16 -/

/-- What stands in front of bytes in UTF-16, where `unit` puts the two bytes of a unit together. -/
def frontUtf16 (unit : UInt8 → UInt8 → Nat) (b : UInt8) : Bytes → Front
  | [] => .fault .truncated 0
  | b' :: rest =>
    let u := unit b b'
    if u < 0xD800 ∨ 0xE000 ≤ u then .char (.ofNat u) 1
    else if 0xDC00 ≤ u then .fault .loneSecond 1
    else
      match rest with
      | c :: c' :: _ =>
        let v := unit c c'
        if 0xDC00 ≤ v ∧ v < 0xE000 then
          .char (.ofNat (0x10000 + (u - 0xD800) * 0x400 + (v - 0xDC00))) 3
        else .fault .loneFirst 1
      | [_] => .fault .unexpectedEnd 2
      | [] => .fault .unexpectedEnd 1

/-! ## Decoding a whole file -/

def front : Encoding → UInt8 → Bytes → Front
  | .utf8, b, rest | .utf8Signed, b, rest => frontUtf8 b rest
  | .latin1, b, _ => .char (.ofNat b.toNat) 0
  | .ascii, b, _ => if b < 0x80 then .char (.ofNat b.toNat) 0 else .fault (.range 128) 0
  | .utf16Little, b, rest => frontUtf16 (fun low high => low.toNat + high.toNat * 256) b rest
  | .utf16Big, b, rest => frontUtf16 (fun high low => high.toNat * 256 + low.toNat) b rest

/-- Decodes the bytes from a place on, with the characters before it in reverse. -/
def decodeFrom (e : Encoding) (place : Nat) (before : List Char) :
    Bytes → Except DecodeFault (List Char)
  | [] => .ok before.reverse
  | b :: rest =>
    match e.front b rest with
    | .char c more => decodeFrom e (place + 1 + more) (c :: before) (rest.drop more)
    | .fault cause more => .error ⟨e, b, place, place + more, cause⟩
termination_by bytes => bytes.length
decreasing_by
  simp only [List.length_drop, List.length_cons]
  omega

/-- Takes the byte order mark away where it belongs to the encoding, also when the bytes end within
it. -/
def withoutSignature (bytes : Bytes) : Bytes :=
  if bytes.isPrefixOf signature then []
  else if signature.isPrefixOf bytes then bytes.drop signature.length
  else bytes

/-- The text that bytes are in an encoding. -/
def decode (e : Encoding) (bytes : Bytes) : Except DecodeFault String :=
  let bytes := if e = .utf8Signed then withoutSignature bytes else bytes
  (decodeFrom e 0 [] bytes).map String.ofList

end Encoding

end BraceGrammar
