import BraceGrammar.CommandLine.Result
import BraceGrammar.FlatGrammar

/-!
# The program that prints a sentence

Given a grammar file, it prints one sentence, or with `--nltk` the flat form of the grammar.  The
exit code is 2 without a file, and 1 when the file gives no grammar or the derivation fails.  The
console is taken to have bytes for all that is printed.
-/

namespace BraceGrammar

namespace CommandLine

namespace PrintSentence

def interface : Interface where
  switches := [
    .forHelp,
    { names := ["--seed"], takes := .integer, help := "random seed, for reproducible sentences" },
    { names := ["--nltk"], help := "print the grammar as an nltk CFG instead of generating" },
    { names := ["--max_steps"], takes := .integer },
    { names := ["--verbose"] }]
  operand? := some ("filepath", "grammar file path")

structure Options where
  file? : Option String := none
  seed : Setting Int := .absent
  /-- Print the flat form of the grammar in place of a sentence. -/
  flat : Bool := false
  limit : Setting Int := .absent
  verbose : Bool := false

def Options.ofSettings (c : Settings) : Options where
  file? := c.operand?
  seed := c.integer "--seed"
  flat := c.has "--nltk"
  limit := c.integer "--max_steps"
  verbose := c.has "--verbose"

/-- What the program is called, from the path that it was started by. -/
def nameOf (startedBy : String) : String :=
  let name := baseName startedBy
  if name = "" then "gen_sentence.py" else name

def usageLine (program : String) : String := "Usage: " ++ program ++ " [filepath]\n"

/-- The line about a grammar file that cannot be used. -/
def fileErrorLine : String := "ERROR: File could not be read.\n"

/-- The line about a grammar that has been loaded. -/
def loadedLine (g : Grammar) (path : String) (start : Symbol) : String :=
  "Loaded " ++ toString g.table.size ++ " non-terminals from " ++ path ++ ", start symbol " ++
    start.text ++ "\n"

/-- A grammar file's grammar with its start symbol. -/
def loadStarting (tree : FileTree) (path : String) : Except Fault (Grammar × Symbol) := do
  let g ← loadGrammar tree path fileCodec
  let start ← g.requireStart.mapError Fault.ofLack
  return (g, start)

/-- The result of a derivation, after what has been printed already.  Only a failure that is about
the grammar is answered. -/
def sentenceResult (o : Options) (tree : FileTree) (out : String) :
    Except Derivation.Failure String → Result
  | .ok text => { status := .ok 0, out := out ++ text ++ "\n", tree }
  | .error failure =>
    let fault := o.limit.faultUnder (.derivation failure)
    if fault.isAboutGrammar then { status := .ok 1, out := out ++ errorLine fault, tree }
    else { status := .error fault, out, tree }

/-- Prints a sentence of a grammar, or its flat form, after what has been printed already. -/
def print (fuel entropy : Nat) (o : Options) (tree : FileTree) (g : Grammar) (start : Symbol)
    (out : String) : Option Result :=
  if o.flat then
    match g.flatten with
    | .error lack => some { status := .error (.ofLack lack), out, tree }
    | .ok F => some { status := .ok 0, out := out ++ F.render ++ "\n", tree }
  else
    match o.seed.get entropy .seed with
    | .error fault => some { status := .error fault, out, tree }
    | .ok seed =>
      (Derivation.generate g.table o.limit.limit? Choice.Source.ask fuel (some start)
        (.ofSeed seed)).map fun (result, _) => sentenceResult o tree out result

/-- Does what the program is asked for.  Without a seed the choices come from the entropy. -/
def serve (fuel entropy : Nat) (program : String) (o : Options) (tree : FileTree) :
    Option Result :=
  match o.file? with
  | none => some { status := .ok 2, out := usageLine program, tree }
  | some path =>
    match loadStarting tree path with
    | .error fault =>
      some (if fault.isAboutGrammar then
        { status := .ok 1, out := fileErrorLine ++ usageLine program ++ "\n", tree }
      else { status := .error fault, tree })
    | .ok (g, start) =>
      print fuel entropy o tree g start (if o.verbose then loadedLine g path start else "")

def run (fuel entropy : Nat) (program : String) (arguments : List String) (tree : FileTree) :
    Option Result :=
  match interface.read arguments with
  | .error stop =>
    some (stop.result interface program (usage interface program (some (program ++ " [filepath]")))
      tree)
  | .ok c => serve fuel entropy program (.ofSettings c) tree

end PrintSentence

end CommandLine

end BraceGrammar
