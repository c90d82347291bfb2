import BraceGrammar.CommandLine.PrintSentence
import BraceGrammar.CommandLine.WriteSentences

/-!
# The two programs
-/

namespace BraceGrammar

namespace CommandLine

inductive Program
  | printSentence
  | writeSentences
deriving DecidableEq

/-- Runs a program that was started by a path, under a name if one is given.  The entropy serves in
place of a seed, and the console has all characters. -/
def Program.run (program : Program) (fuel entropy : Nat) (name? : Option String)
    (startedBy : String) (arguments : List String) (tree : FileTree) :
    Option Result :=
  match program with
  | .printSentence =>
    let name := name?.getD (PrintSentence.nameOf startedBy)
    PrintSentence.run fuel entropy name arguments tree
  | .writeSentences =>
    WriteSentences.run Encoding.utf8.codec fuel entropy (baseName startedBy) arguments tree

end CommandLine

end BraceGrammar
