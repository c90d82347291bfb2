import BraceGrammar.Grammar
import BraceGrammar.Token

/-!
# Grammars as texts

A grammar is written as one block a head, the block of the start symbol in front if it has one.
-/

namespace BraceGrammar

/-- The tokens of the block of one head. -/
def Table.blockTokens (X : Symbol) (bodies : List Body) : List String :=
  Token.blockStart :: X.text ::
    (bodies.flatMap (fun body => body.map Symbol.token ++ [Token.bodyEnd]) ++ [Token.blockEnd])

namespace Grammar

variable (g : Grammar)

/-- The entries of the table, that of the start symbol first. -/
def entriesFromStart : List (Symbol × List Body) :=
  match g.start? with
  | none => g.table.entries
  | some S =>
    match g.table.bodies? S with
    | none => g.table.entries
    | some bodies => (S, bodies) :: g.table.entries.filter fun e => e.1 ≠ S

/-- The text of a grammar in the notation that `Grammar.ofSource` reads. -/
def toSource : String :=
  Token.join (g.entriesFromStart.map fun e => Token.join (Table.blockTokens e.1 e.2))

end Grammar

end BraceGrammar
