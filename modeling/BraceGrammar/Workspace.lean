import BraceGrammar.SentenceFile

/-!
# Workspaces

A workspace holds parsers, grammars, sources and streams under names, beside a file tree.  Things
share what they are made from: a grammar taken from a parser goes on using the parser's table, and a
stream uses the table and the source it was made with, also after their names have been given to
something else.  Tables and sources are therefore kept by number, and a name stands for numbers.
-/

namespace BraceGrammar

namespace Workspace

/-! ## What is kept -/

/-- A parser, and the number of the table that it reads into. -/
structure HeldParser where
  parser : Parser
  table : Nat

/-- A start symbol, and the number of a table. -/
structure HeldGrammar where
  start? : Option Symbol
  table : Nat

/-- A stream, and the numbers of its table and source. -/
structure HeldStream where
  stream : SentenceStream
  table : Nat
  source : Nat

end Workspace

/-- Named parsers, grammars, sources and streams with what they share, and a file tree. -/
structure Workspace where
  tables : Array Table := #[]
  sources : Array Choice.Source := #[]
  parsers : OrderedMap String Workspace.HeldParser := ∅
  grammars : OrderedMap String Workspace.HeldGrammar := ∅
  sourceNames : OrderedMap String Nat := ∅
  streams : OrderedMap String Workspace.HeldStream := ∅
  tree : FileTree := {}
  /-- What the names of encodings stand for. -/
  codecs : String → Except Fault Codec := findCodec

namespace Workspace

/-! ## Access -/

variable (w : Workspace)

def named {α : Type} (things : OrderedMap String α) (name : String) : Except Fault α :=
  match things.find? name with
  | none => .error (.unbound name)
  | some x => .ok x

def table (number : Nat) : Table := w.tables.getD number ∅

def setTable (number : Nat) (T : Table) : Workspace :=
  { w with tables := w.tables.setIfInBounds number T }

def sourceAt (number : Nat) : Choice.Source := w.sources.getD number default

def setSource (number : Nat) (source : Choice.Source) : Workspace :=
  { w with sources := w.sources.setIfInBounds number source }

/-- A held grammar with its table as it is now. -/
def current (h : HeldGrammar) : Grammar := ⟨w.table h.table, h.start?⟩

/-- A held parser with its table as it is now. -/
def currentParser (h : HeldParser) : Parser := { h.parser with table := w.table h.table }

def grammarNamed (g : String) : Except Fault Grammar := (named w.grammars g).map w.current

/-- Gives a name to a grammar with a table of its own. -/
def defineGrammar (g : String) (grammar : Grammar) : Workspace :=
  { w with
    tables := w.tables.push grammar.table
    grammars := w.grammars.insert g ⟨grammar.start?, w.tables.size⟩ }

/-- Gives a name to a new parser with a new table. -/
def addParser (p : String) : Workspace :=
  { w with
    tables := w.tables.push ∅
    parsers := w.parsers.insert p ⟨{}, w.tables.size⟩ }

/-- Keeps a parser under the name that it had, and its table under the number. -/
def keepParser (p : String) (number : Nat) (parser : Parser) : Workspace :=
  { w.setTable number parser.table with parsers := w.parsers.insert p ⟨parser, number⟩ }

end Workspace

end BraceGrammar
