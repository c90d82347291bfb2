import BraceGrammar.Text.Quoted

/-!
# Templates

A template is a text with fields.  A field is a percent sign, the name of a value between brackets,
flags, a width, a precision and a letter; two percent signs stand for one.  There is a single named
value, which is a text, so that only the letters for texts (`s`, `r` and `a`) can be filled in.

A field with a name is filled in from the value.  One without a name takes the name and the value
together, which only the first of all fields can do.  A star in place of a width or precision takes
a number, which is never there.
-/

namespace BraceGrammar

namespace Text

namespace Template

inductive Fault
  /-- The template ends within the name of a value. -/
  | openName
  /-- The template ends within a field. -/
  | openField
  | unknownName (name : String)
  /-- The letter of a field, with its place, is none. -/
  | unknownLetter (letter : Char) (place : Nat)
  /-- A field takes a number of a kind. -/
  | needsNumber (wording : String)
  /-- There is nothing left that a field could take. -/
  | tooManyFields
  | widthTooBig
  | precisionTooBig
  /-- There is no room for a text as wide as a field. -/
  | noRoom
deriving DecidableEq

def Fault.message : Fault → String
  | .openName => "incomplete format key"
  | .openField => "incomplete format"
  | .unknownName name => quoted name
  | .unknownLetter letter place =>
    let shown := if 31 ≤ letter.toNat ∧ letter.toNat ≤ 126 then letter else '?'
    "unsupported format character '" ++ String.singleton shown ++ "' (0x" ++
      String.ofList (Nat.toDigits 16 letter.toNat) ++ ") at index " ++ toString place
  | .needsNumber wording => wording
  | .tooManyFields => "not enough arguments for format string"
  | .widthTooBig => "width too big"
  | .precisionTooBig => "precision too big"
  | .noRoom => ""

/-- What a field is filled in from. -/
inductive Operand
  /-- The text of the one value. -/
  | value (text : String)
  /-- The name and the value together. -/
  | both (name text : String)

def Operand.text : Operand → String
  | .value text => text
  | .both name text => "\x7b" ++ quoted name ++ ": " ++ quoted text ++ "\x7d"

/-- An operand between quotes, where it is a text. -/
def Operand.quoted : Operand → String
  | .value text => Text.quoted text
  | .both name text => (Operand.both name text).text

/-- What an operand is called when it is no number. -/
def Operand.kind : Operand → String
  | .value _ => "str"
  | .both .. => "dict"

/-- The name between brackets in front of a text, in which brackets may be nested, with the rest. -/
def takeName? (depth : Nat) (name : List Char) : List Char → Option (String × List Char)
  | [] => none
  | c :: rest =>
    if c = ')' then
      if depth = 0 then some (String.ofList name.reverse, rest)
      else takeName? (depth - 1) (c :: name) rest
    else if c = '(' then takeName? (depth + 1) (c :: name) rest
    else takeName? depth (c :: name) rest

/-- The number in front of a text, with the rest. -/
def takeNumber (text : List Char) : Nat × List Char :=
  let digits := text.takeWhile Char.isDigit
  (digits.foldl (fun n c => n * 10 + (c.toNat - '0'.toNat)) 0, text.drop digits.length)

/-- Pads a text to a width, with blanks in front or behind. -/
def pad (behind : Bool) (width : Nat) (text : String) : String :=
  let blanks := String.ofList (List.replicate (width - text.length) ' ')
  if behind then text ++ blanks else blanks ++ text

/-- The greatest width that can be written. -/
def maxWidth : Nat := 0x7fffffffffffffff

/-- The greatest precision that can be written. -/
def maxPrecision : Nat := 0x7fffffff

/-- No text is wider than this. -/
def maxLength : Nat := 0x40000000

structure Shape where
  width : Nat
  precision? : Option Nat
  letter : Char

/-- A text in a shape. -/
def Shape.fit (s : Shape) (behind : Bool) (text : String) : Except Fault String :=
  if maxLength < s.width then .error .noRoom
  else .ok (pad behind s.width (s.precision?.elim text fun n => String.ofList (text.toList.take n)))

/-- The text of a field with its letter at a place. -/
def Shape.fill (s : Shape) (operand : Operand) (behind : Bool) (place : Nat) :
    Except Fault String :=
  let letter := String.singleton s.letter
  if s.letter = 's' then s.fit behind operand.text
  else if s.letter = 'r' then s.fit behind operand.quoted
  else if s.letter = 'a' then s.fit behind (toAscii operand.quoted)
  else if s.letter ∈ ['d', 'i', 'u'] then
    .error (.needsNumber ("%" ++ letter ++ " format: a real number is required, not " ++
      operand.kind))
  else if s.letter ∈ ['o', 'x', 'X'] then
    .error (.needsNumber ("%" ++ letter ++ " format: an integer is required, not " ++
      operand.kind))
  else if s.letter ∈ ['e', 'E', 'f', 'F', 'g', 'G'] then
    .error (.needsNumber ("must be real number, not " ++ operand.kind))
  else if s.letter = 'c' then .error (.needsNumber "%c requires int or char")
  else .error (.unknownLetter s.letter place)

/-- What a star comes to, where there may be something to take. -/
def star (operand? : Option Operand) : Fault :=
  if operand?.isSome then .needsNumber "* wants int" else .tooManyFields

/-- The width, the precision and the letter of a field, with what follows it. -/
def takeShape (operand? : Option Operand) (text : List Char) :
    Except Fault (Shape × List Char) := do
  if text.head? = some '*' then .error (star operand?)
  let (width, text) := takeNumber text
  if maxWidth < width then .error .widthTooBig
  let (precision?, text) ←
    match text with
    | '.' :: '*' :: _ => .error (star operand?)
    | '.' :: text =>
      let (n, text) := takeNumber text
      if maxPrecision < n then .error .precisionTooBig else pure (some n, text)
    | _ => pure (none, text)
  let text :=
    match text with
    | c :: rest => if c ∈ ['h', 'l', 'L'] then rest else text
    | [] => []
  match text with
  | [] => .error .openField
  | letter :: rest => return (⟨width, precision?, letter⟩, rest)

/-- Fills in the fields of a template that has so many characters, after what has been filled in
already, in reverse.  The operand is what a field without a name can take. -/
def fillFrom (name value : String) (size : Nat) (operand? : Option Operand) (before : List Char) :
    Nat → List Char → Except Fault String
  | 0, _ | _, [] => .ok (String.ofList before.reverse)
  | steps + 1, '%' :: '%' :: rest => fillFrom name value size operand? ('%' :: before) steps rest
  | steps + 1, '%' :: rest => do
    let (operand?, rest) ←
      match rest with
      | '(' :: rest =>
        match takeName? 0 [] rest with
        | none => .error .openName
        | some (found, rest) =>
          if found = name then pure (some (.value value), rest) else .error (.unknownName found)
      | _ => pure (operand?, rest)
    let flags := rest.takeWhile (· ∈ ['-', '+', ' ', '#', '0'])
    let (shape, rest) ← takeShape operand? (rest.drop flags.length)
    match operand? with
    | none => .error .tooManyFields
    | some operand =>
      let filled ← shape.fill operand (flags.contains '-') (size - rest.length - 1)
      fillFrom name value size none (filled.toList.reverse ++ before) steps rest
  | steps + 1, c :: rest => fillFrom name value size operand? (c :: before) steps rest

def fill (name value template : String) : Except Fault String :=
  fillFrom name value template.length (some (.both name value)) [] (template.length + 1)
    template.toList

end Template

end Text

end BraceGrammar
