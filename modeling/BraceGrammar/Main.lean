import BraceGrammar.CommandLine.Program
import BraceGrammar.FileTree.Change

/-!
# The command line

The first argument names a program, and the others are the program's.  What the arguments may lead
to is loaded into a file tree; the program runs on the tree, and what it changed there is saved.
-/

namespace BraceGrammar

namespace CommandLine

/-- More steps than any derivation takes in practice. -/
def ampleFuel : Nat := 1000000000000000000

def Program.ofName? : String → Option Program
  | "gen_sentence" => some .printSentence
  | "data_build_grammar" => some .writeSentences
  | _ => none

/-- A place as a path from the root. -/
def absolutePath (place : FileTree.Place) : String := "/" ++ "/".intercalate place.names

/-- Loads what is at a place, unless it is neither a file nor a directory. -/
def loadPlace (t : FileTree) (place : FileTree.Place) : IO FileTree := do
  let path := (← IO.currentDir) / absolutePath place
  try
    match (← path.metadata).type with
    | .dir => return t.put place .directory
    | .file => return t.put place (.file (← IO.FS.readBinFile path).toList)
    | _ => return t
  catch _ => return t

def loadPath (t : FileTree) (path : String) : IO FileTree := do
  if path.toList.contains '\x00' then return t
  let mut t := t
  let mut here := (t.path path).start
  for name in (t.path path).names do
    here := here.follow name
    t ← loadPlace t here
  return t

/-- Texts among the arguments that may be paths. -/
def possiblePaths (arguments : List String) : List String :=
  WriteSentences.defaultOutput :: arguments.flatMap fun text =>
    text :: (splitEquals? text).toList.map Prod.snd

def loadTree (arguments : List String) : IO FileTree := do
  let home := FileTree.Place.ofNames
    ((FileTree.splitSlashes (toString (← IO.currentDir))).filter (· ≠ ""))
  let t ← loadPath { home, mostAbove := 994 } (absolutePath home)
  (possiblePaths arguments).foldlM loadPath t

/-- Saves an entry of a tree.  Files are written aside and then moved, so that there is no time when
half of one is there. -/
def saveEntry (place : FileTree.Place) : FileTree.Entry → IO Unit
  | .directory => IO.FS.createDir (absolutePath place)
  | .file content => do
    let path := absolutePath place
    let aside := path ++ ".part"
    IO.FS.writeBinFile aside ⟨content.toArray⟩
    IO.FS.rename aside path

/-- Saves what is in the second tree and not in the first. -/
def saveTree (old new : FileTree) : IO Unit :=
  for (place, e) in new.entries.entries do
    if old.at? place ≠ some e then saveEntry place e

/-- Runs a program on the files there are. -/
def runProgram (program : Program) (name : String) (arguments : List String) : IO UInt32 := do
  let tree ← loadTree arguments
  let entropy := (← IO.getRandomBytes 32).toList.foldl (fun n b => n * 256 + b.toNat) 0
  match program.run ampleFuel entropy none name arguments tree with
  | none => return 1
  | some result =>
    saveTree tree result.tree
    IO.print result.out
    IO.eprint (result.err?.getD "")
    match result.status with
    | .ok code => return code.toUInt32
    | .error fault =>
      IO.eprintln fault.message
      return 1

end CommandLine

end BraceGrammar

def main (arguments : List String) : IO UInt32 := do
  match arguments with
  | name :: rest =>
    match BraceGrammar.CommandLine.Program.ofName? name with
    | some program => BraceGrammar.CommandLine.runProgram program name rest
    | none =>
      IO.eprintln ("no such program: " ++ name)
      return 2
  | [] =>
    IO.eprintln "one of these programs is needed: gen_sentence, data_build_grammar"
    return 2
