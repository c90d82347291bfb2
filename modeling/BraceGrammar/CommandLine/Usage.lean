import BraceGrammar.CommandLine.Arguments
import BraceGrammar.Text.Template

/-!
# Usage and help

The usage of a program names its arguments, on lines of at most 78 characters.  The help repeats the
usage and lists the arguments with what they are for.  The explanations begin in one column, two
blanks after the longest argument, but not beyond the 24th; an argument that is too long for that
has its explanation on the next line.
-/

namespace BraceGrammar

namespace CommandLine

def lineWidth : Nat := 78

/-- The last column that explanations may begin in. -/
def maxHelpColumn : Nat := 24

def blanks (n : Nat) : String := String.ofList (List.replicate n ' ')

namespace Switch

variable (s : Switch)

/-- What the value of a switch is called. -/
def valueName : String := (String.ofList (s.key.toList.dropWhile (· = '-'))).toUpper

/-- One name of a switch, with its value if it takes one. -/
def invocation (name : String) : String :=
  if s.takes = .nothing then name else name ++ " " ++ s.valueName

/-- A switch in the usage: in one piece between square brackets, or, if it is required, in two. -/
def usagePieces : List String :=
  let name := s.names.head?.getD ""
  if s.required then if s.takes = .nothing then [name] else [name, s.valueName]
  else ["[" ++ s.invocation name ++ "]"]

end Switch

/-! ## Usage -/

/-- Puts pieces on lines, each line as long as possible.  The second number is the length of the
line so far, and the pieces on it are given in reverse. -/
def fillLines (indent : Nat) : Nat → List String → List String → List String
  | _, [], [] => []
  | _, line, [] => [" ".intercalate line.reverse]
  | length, line, piece :: pieces =>
    if lineWidth < length + 1 + piece.length ∧ line ≠ [] then
      " ".intercalate line.reverse :: fillLines indent (indent + piece.length) [piece] pieces
    else fillLines indent (length + 1 + piece.length) (piece :: line) pieces

def usageMark : String := "usage: "

/-- The usage of a program with switches only.  The switches come after the program's name, line
below line, or, when the name takes more than three quarters of the line, on lines of their own. -/
def wrappedUsage (program : String) (switches : List Switch) : String :=
  let pieces := switches.flatMap Switch.usagePieces
  let start := usageMark.length + program.length
  if 4 * start ≤ 3 * lineWidth then
    let indent := start + 1
    let lines := fillLines indent (usageMark.length - 1) [] (program :: pieces)
    ("\n" ++ blanks indent).intercalate lines
  else
    let indent := usageMark.length
    ("\n" ++ blanks indent).intercalate (program :: fillLines indent (indent - 1) [] pieces)

/-- The usage of a program: made from the switches, or from a template in which `prog` is the name
of the program. -/
def usage (I : Interface) (program : String) (template? : Option String) :
    Except Text.Template.Fault String :=
  match template? with
  | none => .ok (usageMark ++ wrappedUsage program I.switches)
  | some template => (Text.Template.fill "prog" program template).map (usageMark ++ ·)

/-! ## Help -/

/-- The column in which explanations of arguments begin. -/
def helpColumn (invocations : List String) : Nat :=
  min (invocations.foldl (fun n text => max n text.length) 0 + 4) maxHelpColumn

def helpEntry (column : Nat) (invocation help : String) : String :=
  let shown := "  " ++ invocation
  if help = "" then shown ++ "\n"
  else if shown.length + 2 ≤ column then shown ++ blanks (column - shown.length) ++ help ++ "\n"
  else shown ++ "\n" ++ blanks column ++ help ++ "\n"

/-- A list of arguments with a heading; nothing if the list is empty. -/
def helpSection (column : Nat) (heading : String) (entries : List (String × String)) : String :=
  if entries = [] then ""
  else
    "\n" ++ heading ++ ":\n" ++ String.join (entries.map fun e => helpEntry column e.1 e.2)

/-- Leaves at most one empty line between two lines.  The number counts the line feeds just
before. -/
def squeezeLines : Nat → List Char → List Char
  | _, [] => []
  | n, c :: rest =>
    if c = '\n' then if n < 2 then c :: squeezeLines (n + 1) rest else squeezeLines n rest
    else c :: squeezeLines 0 rest

/-- The usage and the list of all arguments. -/
def help (I : Interface) (usage : String) : String :=
  let operands := I.operand?.toList
  let switches := I.switches.map fun s => (", ".intercalate (s.names.map s.invocation), s.help)
  let column := helpColumn ((operands ++ switches).map Prod.fst)
  usage ++ "\n" ++ helpSection column "positional arguments" operands ++
    helpSection column "options" switches

end CommandLine

end BraceGrammar
