import BraceGrammar.Grammar

/-!
# Flat grammars

A flat grammar is a start name with a list of productions.  Its items tell names to rewrite from
texts that stand for themselves, so names need no brackets: `Grammar.flatten` strips them.  Heads
become names even when they are plain, and two heads that differ in their brackets only fall
together.
-/

namespace BraceGrammar

namespace FlatGrammar

/-- One item of a right-hand side. -/
inductive Item
  | terminal (text : String)
  | nonterminal (name : String)
deriving DecidableEq

/-- A name with one right-hand side. -/
structure Production where
  lhs : String
  rhs : List Item
deriving DecidableEq

end FlatGrammar

/-- A start name and productions in order. -/
structure FlatGrammar where
  start : String
  productions : List FlatGrammar.Production

/-- Bracketed symbols of a body become names, plain ones texts. -/
def Symbol.item (s : Symbol) : FlatGrammar.Item :=
  if s.isBracketed then .nonterminal s.bareName else .terminal s.text

def Table.productions (T : Table) : List FlatGrammar.Production :=
  T.entries.flatMap fun e => e.2.map fun body => ⟨e.1.bareName, body.map Symbol.item⟩

/-- The flat form of a grammar that has a start symbol and at least one body. -/
def Grammar.flatten (g : Grammar) : Except Grammar.Lack FlatGrammar :=
  match g.start? with
  | none => .error .start
  | some S =>
    if g.table.productions.isEmpty then .error .productions
    else .ok ⟨S.bareName, g.table.productions⟩

namespace FlatGrammar

/-- Texts are shown in quotes and names bare. -/
def Item.render : Item → String
  | .terminal text => Text.quoted text
  | .nonterminal name => name

def Production.render (p : Production) : String :=
  p.lhs ++ " -> " ++ " ".intercalate (p.rhs.map Item.render)

variable (F : FlatGrammar)

def productionsOf (lhs : String) : List Production := F.productions.filter fun p => p.lhs = lhs

/-- A headline with the count and the start name, and one line a production. -/
def render : String :=
  "Grammar with " ++ toString F.productions.length ++ " productions (start state = " ++ F.start ++
    ")" ++ String.join (F.productions.map fun p => "\n    " ++ p.render)

end FlatGrammar

end BraceGrammar
