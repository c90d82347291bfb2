import BraceGrammar.FlatGrammar

/-!
# From productions to heads

The productions of a flat grammar that share a name make the bodies of one head.  Names get their
brackets back, so that items can be told apart by their symbols again.
-/

namespace BraceGrammar

/-- The bracketed symbol with a name. -/
def Symbol.bracketed (name : String) : Symbol := ⟨"<" ++ name ++ ">"⟩

namespace FlatGrammar

/-- Names become bracketed symbols, texts symbols as they are. -/
def Item.symbol : Item → Symbol
  | .terminal text => ⟨text⟩
  | .nonterminal name => .bracketed name

variable (F : FlatGrammar)

/-- The names that have productions, in the order of their first ones. -/
def names : List String := (F.productions.map Production.lhs).eraseDups

/-- The right-hand sides of each name, in order. -/
def groups : List (Symbol × List Body) :=
  F.names.map fun name =>
    (.bracketed name, (F.productionsOf name).map fun p => p.rhs.map Item.symbol)

end FlatGrammar

end BraceGrammar
