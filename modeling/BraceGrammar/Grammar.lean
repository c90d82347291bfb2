import BraceGrammar.Table
import BraceGrammar.Text.Quoted

/-!
# Grammars

A grammar is a production table with the symbol that derivations start from.  A text that declares
no block gives a grammar without one.
-/

namespace BraceGrammar

structure Grammar where
  table : Table := ∅
  start? : Option Symbol := none
deriving Inhabited

/-- A head was asked for that has no entry.  There is no head to name when a body ended outside of
every block. -/
structure MissingEntry where
  head? : Option Symbol
deriving DecidableEq

/-! ## Descriptions -/

/-- A symbol as it is shown in messages. -/
def Symbol.description (s : Symbol) : String := "ParseSymbol(" ++ Text.quoted s.text ++ ")"

/-- A symbol that may be missing, as it is shown in messages. -/
def Symbol.descriptionOf? : Option Symbol → String
  | none => "None"
  | some s => s.description

/-- Messages name the entry that was asked for. -/
def MissingEntry.message (e : MissingEntry) : String := Symbol.descriptionOf? e.head?

namespace Grammar

inductive Lack
  | start
  /-- There is no body at all. -/
  | productions
deriving DecidableEq

def Lack.message : Lack → String
  | .start => "grammar declares no production block"
  | .productions => "min() arg is an empty sequence"

variable (g : Grammar)

def requireStart : Except Lack Symbol :=
  match g.start? with
  | none => .error .start
  | some S => .ok S

/-- Whether two grammars have the same start symbol and the same entries in whatever order. -/
def sameAs (h : Grammar) : Bool := g.start? == h.start? && g.table.sameEntries h.table

def description : String :=
  "Grammar(start_symbol=" ++ Symbol.descriptionOf? g.start? ++
    ", heads=" ++ toString g.table.size ++ ")"

def bodies (X : Symbol) : Except MissingEntry (List Body) :=
  match g.table.bodies? X with
  | none => .error ⟨some X⟩
  | some bodies => .ok bodies

end Grammar

end BraceGrammar
