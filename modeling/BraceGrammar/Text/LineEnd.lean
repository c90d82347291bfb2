/-!
# Line ends

A text that is read from a file has a line feed at the end of each line, whether the file has a
line feed there, a carriage return, or the two of them in this order.
-/

namespace BraceGrammar

namespace Text

/-- Every line end becomes a line feed. -/
def unifyLineEnds : List Char → List Char
  | '\r' :: '\n' :: rest => '\n' :: unifyLineEnds rest
  | '\r' :: rest => '\n' :: unifyLineEnds rest
  | c :: rest => c :: unifyLineEnds rest
  | [] => []

end Text

end BraceGrammar
