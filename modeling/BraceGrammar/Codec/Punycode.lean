import BraceGrammar.Codec

/-!
# Punycode

The encoding of RFC 3492.  The characters of ASCII stand in front as they are, with a hyphen behind
them if there are any.  The others are inserted one by one, those of lower numbers first, and for
each of them there is a number: how many pairs of a character and a place are passed over since the
last insertion.  The numbers have digits of base 36, of which a small one ends the number; which
digits are small is learned from the numbers before (`bias`).

Each text has its own hyphen and its own insertions, so the bytes of two texts one after the other
are not those of one text.
-/

namespace BraceGrammar

namespace Punycode

/-! ## Numbers -/

/-- A digit below the threshold ends its number. -/
def threshold (bias index : Nat) : Nat := max 1 (min 26 (36 * (index + 1) - bias))

theorem threshold_bounds (bias index : Nat) :
    1 ≤ threshold bias index ∧ threshold bias index ≤ 26 := by
  unfold threshold
  omega

/-- The digits of a number from one with an index on, lowest first. -/
def digits (bias index n : Nat) : List Nat :=
  let t := threshold bias index
  if n < t then [n] else (t + (n - t) % (36 - t)) :: digits bias (index + 1) ((n - t) / (36 - t))
termination_by n
decreasing_by
  have ht := (threshold_bounds bias index).1
  exact Nat.lt_of_le_of_lt (Nat.div_le_self _ _) (by omega)

/-- The digits are the letters, and then the ten digits of ASCII. -/
def ofDigit (d : Nat) : UInt8 := if d < 26 then (d + 0x61).toUInt8 else (d + 22).toUInt8

def digit? (b : UInt8) : Option Nat :=
  if 0x61 ≤ b ∧ b ≤ 0x7A then some (b.toNat - 0x61)
  else if 0x41 ≤ b ∧ b ≤ 0x5A then some (b.toNat - 0x41)
  else if 0x30 ≤ b ∧ b ≤ 0x39 then some (b.toNat - 22)
  else none

/-- The bias that a number leads to, which is divided until it is small. -/
def biasOf (divided n : Nat) : Nat :=
  if 455 < n then biasOf (divided + 36) (n / 35) else divided + 36 * n / (n + 38)
termination_by n
decreasing_by omega

/-- Reads a number, with the weight of its next digit, and gives what is behind it. -/
def readNumber (bias : Nat) : (index weight : Nat) → Bytes → Except Codec.Fault (Nat × Bytes)
  | _, _, [] => .error ⟨false, "incomplete punicode string"⟩
  | index, weight, b :: rest =>
    match digit? b with
    | none =>
      .error ⟨false, "Invalid extended code point '" ++ String.singleton (.ofNat b.toNat) ++ "'"⟩
    | some d =>
      let t := threshold bias index
      if d < t then .ok (d * weight, rest)
      else
        (readNumber bias (index + 1) (weight * (36 - t)) rest).map fun (n, rest) =>
          (d * weight + n, rest)

/-- A number has at least one digit. -/
theorem length_of_readNumber {bias index weight n : Nat} {bytes rest : Bytes}
    (h : readNumber bias index weight bytes = .ok (n, rest)) : rest.length < bytes.length := by
  induction bytes generalizing index weight n with
  | nil => cases h
  | cons b bytes ih =>
    rw [readNumber] at h
    split at h
    · cases h
    · dsimp only at h
      split at h
      · cases h
        exact Nat.lt_succ_self _
      · cases hmore : readNumber bias (index + 1) (weight * (36 - threshold bias index)) bytes with
        | error fault =>
          rw [hmore] at h
          cases h
        | ok read =>
          rw [hmore] at h
          cases h
          exact Nat.lt_succ_of_lt (ih hmore)

/-! ## Insertions -/

/-- Where in a text a character is to be inserted, if what is before it holds only characters that
are not greater, and so many of them.  What is inserted is there for the places that follow. -/
def places (c : Char) (here : Nat) : List Char → List Nat
  | [] => []
  | x :: rest =>
    if x = c then here :: places c (here + 1) rest
    else if x < c then places c (here + 1) rest
    else places c here rest

/-- Adds a character to a list without repetitions, in order. -/
def addOrdered (c : Char) : List Char → List Char
  | [] => [c]
  | x :: rest =>
    if c < x then c :: x :: rest else if c = x then x :: rest else x :: addOrdered c rest

def isBasic (c : Char) : Bool := c.toNat < 0x80

/-- The characters that are inserted, in order. -/
def extended (text : List Char) : List Char := (text.filter (!isBasic ·)).foldr addOrdered []

/-- All insertions in order: characters with their places. -/
def insertions (text : List Char) : List (Char × Nat) :=
  (extended text).flatMap fun c => (places c 0 text).map fun place => (c, place)

/-- Where the insertions are: the number of the last character, the place behind it, and what is
learned from the numbers so far. -/
structure Cursor where
  number : Nat := 0x80
  next : Nat := 0
  bias : Nat := 72
  first : Bool := true

/-- The cursor behind an insertion, for which a number was used and after which the text has so many
characters. -/
def Cursor.pass (s : Cursor) (used length number place : Nat) : Cursor :=
  let used := if s.first then used / 700 else used / 2
  ⟨number, place + 1, biasOf 0 (used + used / length), false⟩

/-- The bytes of insertions into a text of some length. -/
def writeInsertions (s : Cursor) (length : Nat) : List (Char × Nat) → Bytes
  | [] => []
  | (c, place) :: rest =>
    let n := (c.toNat - s.number) * (length + 1) + place - s.next
    (digits s.bias 0 n).map ofDigit ++
      writeInsertions (s.pass n (length + 1) c.toNat place) (length + 1) rest

/-- Makes the insertions that bytes are.  Half of a pair is no character. -/
def readInsertions (s : Cursor) (text : List Char) (bytes : Bytes) :
    Except Codec.Fault (List Char) :=
  if bytes = [] then .ok text
  else
    match _ : readNumber s.bias 0 1 bytes with
    | .error fault => .error fault
    | .ok (n, rest) =>
      let reached := s.next + n
      let number := s.number + reached / (text.length + 1)
      let place := reached % (text.length + 1)
      if number.isValidChar then
        readInsertions (s.pass n (text.length + 1) number place)
          (text.insertIdx place (.ofNat number)) rest
      else .error ⟨false, "Invalid character U+" ++ String.ofList (Nat.toDigits 16 number)⟩
termination_by bytes.length
decreasing_by exact length_of_readNumber ‹_›

/-! ## Texts -/

def hyphen : UInt8 := 0x2D

def encode (text : String) : Bytes :=
  let basic := text.toList.filter isBasic
  basic.map (·.toNat.toUInt8) ++ (if basic = [] then [] else [hyphen]) ++
    writeInsertions {} basic.length (insertions text.toList)

/-- The text of bytes that are ASCII up to the last hyphen and behind it. -/
def decode (bytes : Bytes) : Except Codec.Fault String := do
  let behind := (bytes.reverse.takeWhile (· ≠ hyphen)).reverse
  let before := ((bytes.reverse.dropWhile (· ≠ hyphen)).drop 1).reverse
  let basic ← Encoding.ascii.codec.decode before
  let _ ← Encoding.ascii.codec.decode behind
  (readInsertions {} basic.toList behind).map String.ofList

def name : String := "punycode"

def codec : Codec where
  append _ text := .ok (encode text)
  encode text := .ok (encode text)
  decode := decode

end Punycode

end BraceGrammar
