import BraceGrammar.CommandLine.Result

/-!
# The program that writes a file of sentences

Given a grammar file, it writes a number of sentences to a file, one on each line, and prints how
many there are.  When the grammar is at fault it prints why, with exit code 1, and the file is as it
was; faults of the file system are not answered.  Printing comes last, and is a fault itself when
the console has no bytes for a text.
-/

namespace BraceGrammar

namespace CommandLine

namespace WriteSentences

def interface : Interface where
  switches := [
    .forHelp,
    { names := ["--grammar"], takes := .word, help := "grammar file path", required := true },
    { names := ["--output"], takes := .word, help := "where to write the sentences" },
    { names := ["--n_sentences"], takes := .integer },
    { names := ["--seed"], takes := .integer },
    { names := ["--max_steps"], takes := .integer },
    { names := ["--disable_progress"] }]

def defaultOutput : String := "data/grammar_sentences.txt"

def defaultCount : Int := 1000

structure Options where
  file : Setting String := .absent
  output : Setting String := .absent
  count : Setting Int := .absent
  seed : Setting Int := .absent
  limit : Setting Int := .absent
  /-- Whether progress is displayed, which is of no consequence unless it cannot be. -/
  displayed : Bool := true

def Options.ofSettings (c : Settings) : Options where
  file := c.word "--grammar"
  output := c.word "--output"
  count := c.integer "--n_sentences"
  seed := c.integer "--seed"
  limit := c.integer "--max_steps"
  displayed := !c.has "--disable_progress"

def writtenLine (count : Nat) (path : String) : String :=
  toString count ++ " sentences written to " ++ path ++ "\n"

/-- Prints a text and ends with an exit code. -/
def say (console : Codec) (code : Nat) (text : String) (tree : FileTree) : Result :=
  match console.append [] text with
  | .error fault => { status := .error (.unencodable fault), tree }
  | .ok _ => { status := .ok code, out := text, tree }

def faultResult (console : Codec) (fault : Fault) (tree : FileTree) : Result :=
  if fault.isAboutGrammar then say console 1 (errorLine fault) tree
  else { status := .error fault, tree }

/-- What there is to do, once all settings are known. -/
structure Job where
  grammar : Grammar
  source : Choice.Source
  stream : SentenceStream
  output : String

/-- The grammar file is loaded before the other settings are looked at, and whether there is a start
symbol is found out between the seed and the count. -/
def prepare (entropy : Nat) (tree : FileTree) (o : Options) : Except Fault Job := do
  let grammar ← loadGrammar tree (← o.file.get "" .grammarFile) fileCodec
  let seed ← o.seed.get entropy .seed
  let _ ← grammar.requireStart.mapError Fault.ofLack
  let count ← o.count.get defaultCount .count
  let stream ←
    (SentenceStream.ofGrammar grammar count o.limit.limit? o.displayed).mapError Fault.ofRefusal
  let output ← o.output.get defaultOutput .output
  return ⟨grammar, .ofSeed seed, stream, output⟩

/-- Does what the program is asked for.  Without a seed the choices come from the entropy. -/
def serve (console : Codec) (fuel entropy : Nat) (o : Options) (tree : FileTree) : Option Result :=
  match prepare entropy tree o with
  | .error fault => some (faultResult console fault tree)
  | .ok job =>
    (SentenceFile.writeStream job.grammar.table Choice.Source.ask fuel tree job.output fileCodec
      job.stream job.source).map fun w =>
        match w.result with
        | .error fault => faultResult console (o.limit.faultUnder fault) w.tree
        | .ok n => say console 0 (writtenLine n job.output) w.tree

def run (console : Codec) (fuel entropy : Nat) (program : String) (arguments : List String)
    (tree : FileTree) : Option Result :=
  match interface.read arguments with
  | .error stop => some (stop.result interface program (usage interface program none) tree)
  | .ok c => serve console fuel entropy (.ofSettings c) tree

end WriteSentences

end CommandLine

end BraceGrammar
