import BraceGrammar.CommandLine.WriteSentences
import BraceGrammar.FileTree.Change

/-!
# What writing sentences may come to

The results that a run of the program may have, once its arguments have been read.  Each goes with
what has happened: how many sentences were derived, what was printed and how the tree has changed.
-/

namespace BraceGrammar

namespace CommandLine

namespace WriteSentences

open BraceGrammar.Derivation

/-- What the program goes by: the grammar of the file with its start symbol, and the values of the
settings. -/
structure Options.Uses (o : Options) (entropy : Nat) (tree : FileTree) (g : Grammar) (S : Symbol)
    (seed count : Int) (output : String) : Prop where
  grammar : ∃ path, o.file.get "" .grammarFile = .ok path ∧
    loadGrammar tree path fileCodec = .ok g
  start : g.start? = some S
  seed : o.seed.get entropy .seed = .ok seed
  displayed : o.displayed = true → count ≤ SentenceStream.maxDisplayed
  count : o.count.get defaultCount .count = .ok count
  output : o.output.get defaultOutput .output = .ok output

/-- The file of the output has come to hold all sentences, of which there are none if the count is
negative. -/
structure Options.Writes (o : Options) (fuel entropy : Nat) (tree : FileTree) (g : Grammar)
    (S : Symbol) (seed count : Int) (output : String) (texts : List String) (u : FileTree) :
    Prop where
  uses : o.Uses entropy tree g S seed count output
  derived : ∃ rest, generateEach g.table o.limit.limit? Choice.Source.ask fuel (some S) count.toNat
    (.ofSeed seed) = some (texts.map .ok, rest)
  gains : ∃ content,
    Encoding.utf8.encode (String.join (texts.map SentenceFile.line)) = .ok content ∧
      tree.GainsFile u (tree.path output) content

variable (console : Codec) (fuel entropy : Nat) (tree : FileTree) (o : Options)

/-- The console has bytes for a text. -/
def Prints (text : String) : Prop := ∃ bytes, console.append [] text = .ok bytes

inductive Outcome : Result → Prop
  /-- All sentences are written. -/
  | written {g : Grammar} {S : Symbol} {seed count : Int} {output : String} {texts : List String}
      {u : FileTree} (writes : o.Writes fuel entropy tree g S seed count output texts u)
      (prints : Prints console (writtenLine count.toNat output)) :
      Outcome { status := .ok 0, out := writtenLine count.toNat output, tree := u }
  /-- All sentences are written, and it cannot be printed that they are. -/
  | unprinted {g : Grammar} {S : Symbol} {seed count : Int} {output : String} {texts : List String}
      {u : FileTree} {fault : Codec.Fault}
      (writes : o.Writes fuel entropy tree g S seed count output texts u)
      (unprintable : console.append [] (writtenLine count.toNat output) = .error fault) :
      Outcome { status := .error (.unencodable fault), tree := u }
  /-- There is no grammar in the file. -/
  | unread {path : String} {reason? : Option String}
      (file : o.file.get "" .grammarFile = .ok path)
      (load : loadGrammar tree path fileCodec = .error (.unreadable path reason?))
      (prints : Prints console (errorLine (.unreadable path reason?))) :
      Outcome { status := .ok 1, out := errorLine (.unreadable path reason?), tree }
  /-- The grammar has no start symbol. -/
  | startless {path : String} {g : Grammar} (file : o.file.get "" .grammarFile = .ok path)
      (load : loadGrammar tree path fileCodec = .ok g) (start : g.start? = none)
      (prints : Prints console (errorLine (.noStart Grammar.Lack.start.message))) :
      Outcome { status := .ok 1, out := errorLine (.noStart Grammar.Lack.start.message), tree }
  /-- A derivation fails after some sentences, of which none is kept. -/
  | failed {g : Grammar} {S : Symbol} {seed count : Int} {output : String} {texts : List String}
      {mid rest : Choice.Source} {failure : Failure} {u : FileTree}
      (uses : o.Uses entropy tree g S seed count output) (fewer : texts.length < count.toNat)
      (derived : generateEach g.table o.limit.limit? Choice.Source.ask fuel (some S) texts.length
        (.ofSeed seed) = some (texts.map .ok, mid))
      (fails : generate g.table o.limit.limit? Choice.Source.ask fuel (some S) mid =
        some (.error failure, rest))
      (about : (Fault.derivation failure).isAboutGrammar = true)
      (prints : Prints console (errorLine (.derivation failure)))
      (gains : tree.GainsDirectories u (tree.path output)) :
      Outcome { status := .ok 1, out := errorLine (.derivation failure), tree := u }
  /-- A fault that is not about the grammar, before there is anything to write. -/
  | unprepared {fault : Fault} (about : fault.isAboutGrammar = false) :
      Outcome { status := .error fault, tree }
  /-- A fault that is not about the grammar, while sentences are written or after they could not
  be. -/
  | unwritten {g : Grammar} {S : Symbol} {seed count : Int} {output : String} {fault : Fault}
      {u : FileTree} (uses : o.Uses entropy tree g S seed count output)
      (about : fault.isAboutGrammar = false)
      (gains : tree.GainsDirectories u (tree.path output)) :
      Outcome { status := .error fault, tree := u }

end WriteSentences

end CommandLine

end BraceGrammar
