/-!
# Tokens

A text is cut into tokens at every single blank, after each carriage return that is followed by a
line feed has become a blank together with it.  Lone carriage returns and line feeds stay inside
their tokens, and two blanks in a row have the empty token between them.
-/

namespace BraceGrammar

namespace Token

/-- Opens a block. -/
def blockStart : String := "\x7b"

/-- Closes a block. -/
def blockEnd : String := "\x7d"

/-- Closes a body. -/
def bodyEnd : String := ";"

/-- Carriage return and line feed, side by side, become one blank. -/
def blankPairs : List Char → List Char
  | '\r' :: '\n' :: rest => ' ' :: blankPairs rest
  | c :: rest => c :: blankPairs rest
  | [] => []

/-- The tokens of a text, of which there is always at least one. -/
def split (text : String) : List String :=
  ((blankPairs text.toList).splitOn ' ').map String.ofList

/-- Tokens side by side with a blank between neighbours. -/
def join (tokens : List String) : String := " ".intercalate tokens

end Token

end BraceGrammar
