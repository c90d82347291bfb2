import BraceGrammar.Text.Integer
import BraceGrammar.Text.Quoted

/-!
# Arguments of programs

A program has switches, each with its names, and perhaps one further argument.  `Interface.read`
reads a list of arguments in two passes.  The first tells switches from plain arguments: a long name
may be cut short while it is clear which one is meant, its value may follow after an equals sign,
and what looks like a negative number or holds a blank is plain.  The second goes from left to right
and gives each switch its value; the first fault, or a call for help, ends it.  A value of two
dashes is none, and whether a switch can do without is found out where its value is used.
-/

namespace BraceGrammar

namespace CommandLine

inductive Takes
  | nothing
  | word
  | integer
deriving DecidableEq

/-- A switch.  Names of one dash and one letter are for switches that take nothing. -/
structure Switch where
  names : List String
  takes : Takes := .nothing
  help : String := ""
  required : Bool := false

structure Interface where
  switches : List Switch
  /-- Name and help of the argument that is not a switch. -/
  operand? : Option (String × String) := none

inductive Value
  | yes
  | word (text : String)
  | integer (n : Int)
  /-- Nothing, though the switch takes a value. -/
  | blank

/-- The setting of a switch that takes a value. -/
inductive Setting (α : Type)
  | absent
  /-- The switch is given nothing. -/
  | blank
  | value (x : α)
deriving DecidableEq

structure Settings where
  operand? : Option String := none
  /-- Switches by their last names, with values, the latest first. -/
  given : List (String × Value) := []

/-- Why reading ends before the settings are known. -/
inductive Stop
  | help
  | refused (message : String)

namespace Switch

/-- The switch that every program has. -/
def forHelp : Switch where
  names := ["-h", "--help"]
  help := "show this help message and exit"

variable (s : Switch)

/-- The names as they stand in messages. -/
def shown : String := "/".intercalate s.names

/-- The name that settings go by. -/
def key : String := s.names.getLast?.getD ""

def refuse (reason : String) : Stop := .refused ("argument " ++ s.shown ++ ": " ++ reason)

/-- The refusal of a value for a switch that takes none. -/
def refuseValue (text : String) : Stop :=
  s.refuse ("ignored explicit argument " ++ Text.quoted text)

end Switch

namespace Settings

variable (c : Settings)

def has (key : String) : Bool := (c.given.lookup key).isSome

def word (key : String) : Setting String :=
  match c.given.lookup key with
  | some (.word text) => .value text
  | some .blank => .blank
  | _ => .absent

def integer (key : String) : Setting Int :=
  match c.given.lookup key with
  | some (.integer n) => .value n
  | some .blank => .blank
  | _ => .absent

def give (s : Switch) (v : Value) : Settings := { c with given := (s.key, v) :: c.given }

/-- Gives a switch the value that a text is.  Two dashes are no value. -/
def take (s : Switch) (text : String) : Except Stop Settings :=
  match s.takes with
  | .nothing => if s.names.contains "--help" then .error .help else .ok (c.give s .yes)
  | .word => .ok (c.give s (if text = "--" then .blank else .word text))
  | .integer =>
    if text = "--" then .ok (c.give s .blank)
    else
      match Text.readInteger? text with
      | none => .error (s.refuse ("invalid int value: " ++ Text.quoted text))
      | some n => .ok (c.give s (.integer n))

end Settings

/-! ## Telling switches from plain arguments -/

/-- An argument, seen on its own. -/
inductive Argument
  /-- Two dashes: everything that follows is plain. -/
  | separator
  | plain (text : String)
  /-- A switch by one of its names, perhaps with a value in the same argument. -/
  | switch (s : Switch) (name : String) (value? : Option String)
  /-- A switch that the program does not have. -/
  | unknown (text : String)

/-- Both sides of the first equals sign. -/
def splitEquals? (text : String) : Option (String × String) :=
  match text.toList.span (· ≠ '=') with
  | (name, _ :: value) => some (String.ofList name, String.ofList value)
  | _ => none

/-- Digits of any script, at least one. -/
def areDigits (text : List Char) : Bool :=
  text ≠ [] && text.all fun c => (Text.decimalDigit? c).isSome

/-- A dash and a number, with or without a point; a line feed at the end does no harm. -/
def isNegativeNumber (text : String) : Bool :=
  match text.toList with
  | '-' :: rest =>
    let rest := if rest.getLast? = some '\n' then rest.dropLast else rest
    let before := rest.takeWhile fun c => (Text.decimalDigit? c).isSome
    match rest.drop before.length with
    | [] => areDigits before
    | '.' :: fraction => areDigits fraction
    | _ => false
  | _ => false

def beginsWith (text start : String) : Bool := start.toList.isPrefixOf text.toList

namespace Interface

variable (I : Interface)

def find? (name : String) : Option Switch := I.switches.find? fun s => s.names.contains name

/-- What an argument that begins with a dash and is no switch by its full name may stand for. -/
def readings (text : String) : List (String × Argument) :=
  if beginsWith text "--" then
    let (start, value?) :=
      match splitEquals? text with
      | some (start, value) => (start, some value)
      | none => (text, none)
    I.switches.flatMap fun s =>
      (s.names.filter (beginsWith · start)).map fun name => (name, .switch s name value?)
  else
    let letter := String.ofList (text.toList.take 2)
    I.switches.flatMap fun s =>
      s.names.filterMap fun name =>
        if name = letter then
          some (name, .switch s name (some (String.ofList (text.toList.drop 2))))
        else if beginsWith name text then some (name, .switch s name none)
        else none

def classify (text : String) : Except Stop Argument :=
  if text.toList.head? ≠ some '-' then .ok (.plain text)
  else
    match I.find? text with
    | some s => .ok (.switch s text none)
    | none =>
      if text = "-" then .ok (.plain text)
      else
        match splitEquals? text, (splitEquals? text).bind fun e => I.find? e.1 with
        | some (name, value), some s => .ok (.switch s name (some value))
        | _, _ =>
          match I.readings text with
          | [(_, a)] => .ok a
          | [] =>
            .ok (if isNegativeNumber text || text.toList.contains ' ' then .plain text
              else .unknown text)
          | many =>
            .error (.refused ("ambiguous option: " ++ text ++ " could match " ++
              ", ".intercalate (many.map Prod.fst)))

def classifyAll : List String → Except Stop (List Argument)
  | [] => .ok []
  | "--" :: rest => .ok (.separator :: rest.map .plain)
  | text :: rest => do
    let a ← I.classify text
    let rest ← classifyAll rest
    return a :: rest

/-! ## Giving switches their values -/

/-- A switch with the switches of the letters that follow its letter.  All that follows the last
switch is refused as a value of it. -/
def lettersAfter (I : Interface) (s : Switch) : List Char → Except Stop (List Switch)
  | [] => .ok [s]
  | letter :: rest =>
    match I.find? (String.ofList ['-', letter]) with
    | none => .error (s.refuseValue (String.ofList (letter :: rest)))
    | some s' => (I.lettersAfter s' rest).map (s :: ·)

/-- Goes through the arguments from left to right, with the settings so far and, in reverse, what is
left over. -/
def takeAll (I : Interface) (c : Settings) (extra : List String) (arguments : List Argument) :
    Except Stop (Settings × List String) :=
  match arguments with
  | [] => .ok (c, extra.reverse)
  | .switch s _ none :: rest =>
    if s.takes = .nothing then
      match c.take s "" with
      | .error stop => .error stop
      | .ok c => I.takeAll c extra rest
    else
      match rest with
      | .plain text :: rest =>
        match c.take s text with
        | .error stop => .error stop
        | .ok c => I.takeAll c extra rest
      | _ => .error (s.refuse "expected one argument")
  | .switch s name (some text) :: rest =>
    if s.takes ≠ .nothing then
      match c.take s text with
      | .error stop => .error stop
      | .ok c => I.takeAll c extra rest
    else if beginsWith name "--" || text = "" then .error (s.refuseValue text)
    else
      match (I.lettersAfter s text.toList).bind (·.foldlM (fun c s => c.take s "") c) with
      | .error stop => .error stop
      | .ok c => I.takeAll c extra rest
  | .unknown text :: rest => I.takeAll c (text :: extra) rest
  | .plain text :: rest =>
    if I.operand?.isSome && c.operand?.isNone then
      match rest with
      | .separator :: rest => I.takeAll { c with operand? := some text } extra rest
      | rest => I.takeAll { c with operand? := some text } extra rest
    else I.takeAll c (text :: extra) rest
  | .separator :: rest =>
    if I.operand?.isSome && c.operand?.isNone then
      match rest with
      | .plain text :: rest => I.takeAll { c with operand? := some text } extra rest
      | rest => I.takeAll c extra rest
    else I.takeAll c ("--" :: extra) rest
termination_by arguments.length

def read (arguments : List String) : Except Stop Settings := do
  let (c, extra) ← I.takeAll {} [] (← I.classifyAll arguments)
  let missing := I.switches.filter fun s => s.required && !c.has s.key
  if missing ≠ [] then
    .error (.refused ("the following arguments are required: " ++
      ", ".intercalate (missing.map Switch.shown)))
  else if extra ≠ [] then .error (.refused ("unrecognized arguments: " ++ " ".intercalate extra))
  else .ok c

end Interface

end CommandLine

end BraceGrammar
