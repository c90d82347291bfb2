import BraceGrammar.CommandLine.PrintSentence

/-!
# What printing a sentence may come to

The results that a run of the program may have, once its arguments have been read.  The file tree is
the same in all of them.
-/

namespace BraceGrammar

namespace CommandLine

namespace PrintSentence

open BraceGrammar.Derivation

variable (fuel entropy : Nat) (program : String) (tree : FileTree) (o : Options)

/-- What is printed about a grammar before anything else. -/
def Options.heading (path : String) (g : Grammar) (S : Symbol) : String :=
  if o.verbose then loadedLine g path S else ""

/-- The fault that the program has no answer to when it has loaded a grammar with a start symbol.
There is one when the flat form of a grammar without bodies is asked for, and when a setting without
a value is used.  The limit is used for the first expansion, so not when the start symbol is
plain. -/
def Options.escape? (g : Grammar) (S : Symbol) : Option Fault :=
  if o.flat then
    if g.table.productions.isEmpty then some .noProductions else none
  else if o.seed = .blank then some (.blank .seed)
  else if o.limit = .blank ∧ S.isBracketed = true then some (.blank .limit)
  else none

/-- A file that the program is given has a grammar with a start symbol, and there is an answer to
what is asked for. -/
structure Options.Serves (path : String) (g : Grammar) (S : Symbol) : Prop where
  file : o.file? = some path
  load : loadStarting tree path = .ok (g, S)
  answered : o.escape? g S = none

inductive Outcome : Result → Prop
  /-- There is no file to load. -/
  | unasked (file : o.file? = none) :
      Outcome { status := .ok 2, out := usageLine program, tree }
  /-- There is no grammar with a start symbol in the file. -/
  | unloaded {path : String} {fault : Fault} (file : o.file? = some path)
      (load : loadStarting tree path = .error fault) :
      Outcome { status := .ok 1, out := fileErrorLine ++ usageLine program ++ "\n", tree }
  /-- The flat form is printed. -/
  | flattened {path : String} {g : Grammar} {S : Symbol} {F : FlatGrammar}
      (serves : o.Serves tree path g S) (flat : o.flat = true) (flattens : g.flatten = .ok F) :
      Outcome { status := .ok 0, out := o.heading path g S ++ F.render ++ "\n", tree }
  /-- A sentence is printed. -/
  | derived {path : String} {g : Grammar} {S : Symbol} {seed : Int} {text : String}
      {rest : Choice.Source} (serves : o.Serves tree path g S) (flat : o.flat = false)
      (seeded : o.seed.get entropy .seed = .ok seed)
      (derives : generate g.table o.limit.limit? Choice.Source.ask fuel (some S) (.ofSeed seed) =
        some (.ok text, rest)) :
      Outcome { status := .ok 0, out := o.heading path g S ++ text ++ "\n", tree }
  /-- The derivation meets a symbol without an entry, or goes beyond the limit. -/
  | failed {path : String} {g : Grammar} {S : Symbol} {seed : Int} {failure : Failure}
      {rest : Choice.Source} (serves : o.Serves tree path g S) (flat : o.flat = false)
      (seeded : o.seed.get entropy .seed = .ok seed)
      (fails : generate g.table o.limit.limit? Choice.Source.ask fuel (some S) (.ofSeed seed) =
        some (.error failure, rest))
      (cause : (∃ X, failure = .undefined X) ∨ ∃ n, o.limit = .value n ∧ failure = .limit n) :
      Outcome
        { status := .ok 1, out := o.heading path g S ++ errorLine (.derivation failure), tree }
  /-- A fault that the program does not answer. -/
  | escaped {path : String} {g : Grammar} {S : Symbol} {fault : Fault} (file : o.file? = some path)
      (load : loadStarting tree path = .ok (g, S)) (escapes : o.escape? g S = some fault) :
      Outcome { status := .error fault, out := o.heading path g S, tree }

end PrintSentence

end CommandLine

end BraceGrammar
