import BraceGrammar.Derivation.Expansion
import BraceGrammar.Derivation.Forest
import BraceGrammar.Derivation.Reachable
import BraceGrammar.FileTree.Change
import BraceGrammar.FlatGrammar.Language
import BraceGrammar.Grammar.Block
import BraceGrammar.Grammar.Writable
import BraceGrammar.Main
import BraceGrammar.Proofs.Concatenation
import BraceGrammar.Proofs.Expansion
import BraceGrammar.Proofs.FileTree
import BraceGrammar.Proofs.Forest
import BraceGrammar.Proofs.Image
import BraceGrammar.Proofs.RoundTrip
import BraceGrammar.Proofs.SentenceFile
import BraceGrammar.Proofs.Target
import BraceGrammar.Proofs.Words
import BraceGrammar.Workspace.Command
import BraceGrammar.Proofs.FlatLanguage
import BraceGrammar.Proofs.Interleaving
import BraceGrammar.Proofs.StreamFile
import BraceGrammar.Proofs.WriteSentences
import BraceGrammar.Proofs.TwoPrograms
import BraceGrammar.Proofs.Limit
import BraceGrammar.Proofs.GrammarFile
import BraceGrammar.CommandLine.PrintSentence.Outcome
import BraceGrammar.Proofs.Failures
import BraceGrammar.Proofs.Lines
import BraceGrammar.Proofs.PrintOutcome
import BraceGrammar.Proofs.Course
import BraceGrammar.Proofs.Reachable
import BraceGrammar.Proofs.Escape
import BraceGrammar.Proofs.Acyclic
import BraceGrammar.Derivation.Renaming
import BraceGrammar.Proofs.Simulation
import BraceGrammar.Proofs.ReachablePart
import BraceGrammar.Proofs.Renaming
import BraceGrammar.Grammar.Calls
import BraceGrammar.Proofs.Feeding
import BraceGrammar.Proofs.Calls
import BraceGrammar.Proofs.TextEnd
import BraceGrammar.FlatGrammar.Grouping
import BraceGrammar.Proofs.Grouping
import BraceGrammar.Proofs.Rereading
import BraceGrammar.Proofs.Separator
import BraceGrammar.Proofs.Replacement
import BraceGrammar.Proofs.Twister
