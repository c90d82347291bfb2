import BraceGrammar.CommandLine.Usage
import BraceGrammar.SentenceFile

/-!
# Results of programs

A run of a program ends with an exit code or with a fault that the program has no answer to.  It
leaves behind what it printed and the file tree.
-/

namespace BraceGrammar

namespace CommandLine

/-- What a run of a program leaves behind. -/
structure Result where
  status : Except Fault Nat
  out : String := ""
  /-- What the reading of the arguments wrote on the error channel, where it ended the program. -/
  err? : Option String := none
  tree : FileTree

/-- The result of a program whose arguments could not be turned into settings.  It depends on the
usage, and is a fault when there is none. -/
def Stop.result (stop : Stop) (I : Interface) (program : String)
    (usage : Except Text.Template.Fault String) (tree : FileTree) : Result :=
  let squeeze (text : String) := String.ofList (squeezeLines 0 text.toList)
  match usage, stop with
  | .error fault, _ => { status := .error (.template fault), tree }
  | .ok usage, .help =>
    { status := .ok 0, out := squeeze (CommandLine.help I usage), err? := some "", tree }
  | .ok usage, .refused message =>
    { status := .ok 2
      err? := some (squeeze (usage ++ "\n") ++ program ++ ": error: " ++ message ++ "\n")
      tree }

/-! ## Settings without a value -/

/-- The value of a setting, or one that stands in for it when it is absent.  It is a fault to use a
setting without a value. -/
def Setting.get {α : Type} (s : Setting α) (absent : α) (name : BlankSetting) : Except Fault α :=
  match s with
  | .absent => .ok absent
  | .blank => .error (.blank name)
  | .value x => .ok x

/-- The limit that a setting is.  One without a value is not used before an expansion is counted,
and so it is taken for a limit that the first expansion is beyond. -/
def Setting.limit? : Setting Int → Option Int
  | .absent => none
  | .blank => some 0
  | .value n => some n

/-- The fault of a derivation under a limit. -/
def Setting.faultUnder (limit : Setting Int) : Fault → Fault
  | .derivation (.limit n) =>
    if limit = .blank then .blank .limit else .derivation (.limit n)
  | fault => fault

/-! ## Names and lines -/

/-- What follows the last slash of a path. -/
def baseName (path : String) : String :=
  String.ofList (path.toList.reverse.takeWhile (· ≠ '/')).reverse

/-- What the files of the programs are read and written in. -/
def fileCodec : Except Fault Codec := findCodec "utf-8"

def errorLine (f : Fault) : String := "ERROR: " ++ f.message ++ "\n"

end CommandLine

end BraceGrammar
