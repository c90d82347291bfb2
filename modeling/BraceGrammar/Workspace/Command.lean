import BraceGrammar.CommandLine.Program
import BraceGrammar.Grammar.Source
import BraceGrammar.Workspace

/-!
# Commands of a workspace

`Workspace.run` carries out one command.  A command that fails leaves all names as they were; what
it has already read or drawn stays read and drawn.
-/

namespace BraceGrammar

namespace Workspace

inductive Question
  | whole
  | size
  | description
  | source
  | start
  | contains (X : Symbol)
  | bodies (X : Symbol)
  /-- The flat form, or only the productions of one name. -/
  | flat (lhs? : Option String)

inductive Edit
  | addBody (X : Symbol) (body : Body)
  | setBodies (X : Symbol) (bodies : List Body)
  | delete (X : Symbol)

/-- Commands name the things that they use. -/
inductive Command
  | newParser (p : String)
  | step (p : String) (mode : Mode) (token : String)
  | feed (p : String) (tokens : List String)
  | take (p g : String)
  | define (g : String) (grammar : Grammar)
  | ask (g : String) (question : Question)
  | edit (g : String) (change : Edit)
  | setStart (g : String) (start? : Option Symbol)
  /-- Parses the text of `g` and calls the result `into`. -/
  | reparse (g into : String)
  | newSource (r : String) (recipe : Choice.Source.Recipe)
  | draw (r : String) (bound : Int)
  /-- Derives a sentence from the start symbol given, or else from the grammar's own. -/
  | generate (g r : String) (start? : Option (Option Symbol)) (limit : Option Int)
  | newStream (i g r : String) (count : Int) (limit : Option Int) (displayed : Bool)
  | next (i : String)
  | read (path encoding : String)
  | load (g path encoding : String)
  | write (path encoding : String) (sentences : List String)
  | writeStream (path encoding i : String)
  | listFiles
  | run (program : CommandLine.Program) (name? : Option String) (startedBy : String)
      (arguments : List String)

inductive Reply
  | done
  | mode (current : Mode)
  | stepped (next current : Mode)
  | grammar (g : Grammar)
  | number (n : Int)
  | text (text : String)
  | truth (b : Bool)
  | bodies (bodies : List Body)
  /-- A flat grammar, of which only the productions of one name may be wanted. -/
  | flat (F : FlatGrammar) (lhs? : Option String)
  | sentence (text : String)
  | over
  | listing (entries : List (String × FileTree.Entry))
  | ran (result : CommandLine.Result)

/-- The answer to a question about a grammar. -/
def Question.answer (g : Grammar) : Question → Except Fault Reply
  | .whole => .ok (.grammar g)
  | .size => .ok (.number g.table.size)
  | .description => .ok (.text g.description)
  | .source => .ok (.text g.toSource)
  | .start => (g.requireStart.mapError Fault.ofLack).map fun S => .text S.text
  | .contains X => .ok (.truth (g.table.contains X))
  | .bodies X => ((g.bodies X).mapError Fault.missing).map .bodies
  | .flat lhs? =>
    (g.flatten.mapError Fault.ofLack).map fun F => .flat F lhs?

/-- A grammar's table after a change, and the answer to the change. -/
def Edit.apply (g : Grammar) : Edit → Except Fault (Table × Reply)
  | .addBody X body =>
    ((g.bodies X).mapError Fault.missing).map fun bodies =>
      (g.table.insert X (bodies ++ [body]), .bodies (bodies ++ [body]))
  | .setBodies X bodies =>
    let table := g.table.insert X bodies
    .ok (table, .grammar { g with table })
  | .delete X =>
    ((g.bodies X).mapError Fault.missing).map fun _ =>
      let table := g.table.erase X
      (table, .grammar { g with table })

variable (w : Workspace)

/-- The outcome of a command that changes nothing when it fails. -/
def orUnchanged (outcome : Except Fault (Reply × Workspace)) : Except Fault Reply × Workspace :=
  match outcome with
  | .error fault => (.error fault, w)
  | .ok (reply, w) => (.ok reply, w)

/-! ## Parsers and grammars -/

/-- Runs one step of a parser in a mode. -/
def stepParser (p : String) (mode : Mode) (token : String) : Except Fault (Reply × Workspace) := do
  let h ← named w.parsers p
  let (next, parser) ← ((w.currentParser h).step mode token).mapError Fault.missing
  return (.stepped next parser.mode, w.keepParser p h.table parser)

/-- Feeds tokens to a parser; those before the first that cannot be read stay read. -/
def feedParser (p : String) (tokens : List String) : Except Fault Reply × Workspace :=
  match named w.parsers p with
  | .error fault => (.error fault, w)
  | .ok h =>
    let (parser, missing?) := (w.currentParser h).feed tokens
    let w := w.keepParser p h.table parser
    match missing? with
    | some entry => (.error (.missing entry), w)
    | none => (.ok (.mode parser.mode), w)

def keepGrammar (g : String) (h : HeldGrammar) : Reply × Workspace :=
  (.grammar (w.current h), { w with grammars := w.grammars.insert g h })

/-- Gives a name to the grammar of a parser, with which it shares the table. -/
def takeGrammar (p g : String) : Except Fault (Reply × Workspace) := do
  let h ← named w.parsers p
  return w.keepGrammar g ⟨h.parser.start?, h.table⟩

def editGrammar (g : String) (change : Edit) : Except Fault (Reply × Workspace) := do
  let h ← named w.grammars g
  let (table, reply) ← change.apply (w.current h)
  return (reply, w.setTable h.table table)

/-! ## Sources and sentences -/

def addSource (r : String) (source : Choice.Source) : Workspace :=
  { w with
    sources := w.sources.push source
    sourceNames := w.sourceNames.insert r w.sources.size }

def drawFrom (r : String) (bound : Int) : Except Fault Reply × Workspace :=
  match named w.sourceNames r with
  | .error fault => (.error fault, w)
  | .ok number =>
    let (drawn, source) := (w.sourceAt number).draw bound
    ((drawn.mapError Fault.choice).map .number, w.setSource number source)

def generate (fuel : Nat) (g r : String) (start? : Option (Option Symbol)) (limit : Option Int) :
    Option (Except Fault Reply × Workspace) :=
  match (do return (← w.grammarNamed g, ← named w.sourceNames r) : Except Fault _) with
  | .error fault => some (.error fault, w)
  | .ok (grammar, number) =>
    (Derivation.generate grammar.table limit Choice.Source.ask fuel
      (start?.getD grammar.start?) (w.sourceAt number)).map fun (result, source) =>
        ((result.mapError Fault.derivation).map .sentence, w.setSource number source)

/-- Gives a name to a new stream. -/
def addStream (i g r : String) (count : Int) (limit : Option Int) (displayed : Bool) :
    Except Fault (Reply × Workspace) := do
  let h ← named w.grammars g
  let source ← named w.sourceNames r
  let stream ←
    (SentenceStream.ofGrammar (w.current h) count limit displayed).mapError Fault.ofRefusal
  return (.done, { w with streams := w.streams.insert i ⟨stream, h.table, source⟩ })

/-- Keeps what is left of a stream, and its source. -/
def keepStream (i : String) (h : HeldStream) (stream : SentenceStream) (source : Choice.Source) :
    Workspace :=
  { w.setSource h.source source with streams := w.streams.insert i { h with stream } }

/-- Asks a stream for a sentence. -/
def nextOf (fuel : Nat) (i : String) : Option (Except Fault Reply × Workspace) :=
  match named w.streams i with
  | .error fault => some (.error fault, w)
  | .ok h =>
    (h.stream.next (w.table h.table) Choice.Source.ask fuel (w.sourceAt h.source)).map
      fun (item, stream, source) =>
        let reply : Except Fault Reply :=
          match item with
          | .sentence text => .ok (.sentence text)
          | .failure cause => .error (.derivation cause)
          | .over => .ok .over
        (reply, w.keepStream i h stream source)

/-! ## Files -/

/-- Writes what is left of a stream. -/
def writeStreamOf (fuel : Nat) (path encoding i : String) :
    Option (Except Fault Reply × Workspace) :=
  match named w.streams i with
  | .error fault => some (.error fault, w)
  | .ok h =>
    (SentenceFile.writeStream (w.table h.table) Choice.Source.ask fuel w.tree path
      (w.codecs encoding) h.stream (w.sourceAt h.source)).map fun written =>
        let (stream, source) := written.rest
        (written.result.map fun n => .number n,
          { w.keepStream i h stream source with tree := written.tree })

def writeSentences (path encoding : String) (sentences : List String) :
    Option (Except Fault Reply × Workspace) :=
  (SentenceFile.writeList w.tree path (w.codecs encoding) sentences).map fun written =>
    (written.result.map fun n => .number n, { w with tree := written.tree })

/-! ## All commands -/

/-- Carries out a command, unless its derivations do not end within the fuel.  The entropy serves
programs that are run without a seed. -/
def run (fuel entropy : Nat) (command : Command) (w : Workspace) :
    Option (Except Fault Reply × Workspace) :=
  match command with
  | .newParser p => some (.ok (.mode .outsideBlock), w.addParser p)
  | .step p mode token => some (w.orUnchanged (w.stepParser p mode token))
  | .feed p tokens => some (w.feedParser p tokens)
  | .take p g => some (w.orUnchanged (w.takeGrammar p g))
  | .define g grammar => some (.ok (.grammar grammar), w.defineGrammar g grammar)
  | .ask g question => some ((w.grammarNamed g).bind question.answer, w)
  | .edit g change => some (w.orUnchanged (w.editGrammar g change))
  | .setStart g start? =>
    some (w.orUnchanged ((named w.grammars g).map fun h => w.keepGrammar g { h with start? }))
  | .reparse g into =>
    some (w.orUnchanged ((w.grammarNamed g).map fun grammar =>
      let grammar := Grammar.ofSource grammar.toSource
      (.grammar grammar, w.defineGrammar into grammar)))
  | .newSource r recipe =>
    some (w.orUnchanged ((recipe.make.mapError Fault.choice).map fun source =>
      (.done, w.addSource r source)))
  | .draw r bound => some (w.drawFrom r bound)
  | .generate g r start? limit => w.generate fuel g r start? limit
  | .newStream i g r count limit displayed =>
    some (w.orUnchanged (w.addStream i g r count limit displayed))
  | .next i => w.nextOf fuel i
  | .read path encoding => some ((readText w.tree path (w.codecs encoding)).map .text, w)
  | .load g path encoding =>
    some (w.orUnchanged ((loadGrammar w.tree path (w.codecs encoding)).map fun grammar =>
      (.grammar grammar, w.defineGrammar g grammar)))
  | .write path encoding sentences => w.writeSentences path encoding sentences
  | .writeStream path encoding i => w.writeStreamOf fuel path encoding i
  | .listFiles => some (.ok (.listing (FileTree.listing w.tree)), w)
  | .run program name? startedBy arguments =>
    (program.run fuel entropy name? startedBy arguments w.tree).map fun result =>
      (.ok (.ran result), { w with tree := result.tree })

end Workspace

end BraceGrammar
