import BraceGrammar.CommandLine.PrintSentence
import BraceGrammar.CommandLine.WriteSentences

/-!
# One request for both programs

Both programs may be asked for sentences of one grammar, with one seed and one limit.  The one
prints the first of them, the other writes some to a file.
-/

namespace BraceGrammar

namespace CommandLine

/-- A program is asked for one sentence, with nothing else to be printed, and another is asked for
some such sentences, at least one.  The seed is the entropy where none is given. -/
structure SameRequest (entropy entropy' : Nat) (o : PrintSentence.Options)
    (o' : WriteSentences.Options) (path output : String) (count : Int) : Prop where
  printed : o.file? = some path
  sentence : o.flat = false ∧ o.verbose = false
  written : o'.file.get "" .grammarFile = .ok path
  seed : ∃ seed, o.seed.get entropy .seed = .ok seed ∧ o'.seed.get entropy' .seed = .ok seed
  limit : o'.limit = o.limit
  positive : 1 ≤ count
  count : o'.count.get WriteSentences.defaultCount .count = .ok count
  output : o'.output.get WriteSentences.defaultOutput .output = .ok output

end CommandLine

end BraceGrammar
