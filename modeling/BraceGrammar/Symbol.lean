/-!
# Symbols

A symbol is its text.  Texts of the shape `<name>` are bracketed: a derivation rewrites them.  Every
other text is plain and stands for itself in a sentence.  In the written notation the newline symbol
is the two-character token of a backslash and an `n`; `ofToken` and `token` go between the two.
-/

namespace BraceGrammar

/-- The symbols of a grammar, equal when their texts are. -/
structure Symbol where
  text : String
deriving DecidableEq, Inhabited, Repr

/-- One right-hand side of a production. -/
abbrev Body := List Symbol

namespace Symbol

/-- Bracketed symbols open with `<` and close with `>`. -/
def isBracketed (s : Symbol) : Bool :=
  s.text.toList.head? == some '<' && s.text.toList.getLast? == some '>'

/-- Plain symbols stand for themselves in a sentence. -/
def isPlain (s : Symbol) : Bool := !s.isBracketed

/-- The text between the brackets; of a plain symbol, the whole text. -/
def bareName (s : Symbol) : String :=
  if s.isBracketed then String.ofList s.text.toList.tail.dropLast else s.text

/-- The symbol that breaks the line. -/
def newline : Symbol := ⟨"\n"⟩

/-- How the newline symbol is written. -/
def newlineToken : String := "\\n"

/-- The symbol that a token of a body stands for. -/
def ofToken (token : String) : Symbol := if token = newlineToken then newline else ⟨token⟩

/-- The token that stands for a symbol of a body. -/
def token (s : Symbol) : String := if s = newline then newlineToken else s.text

theorem ofToken_newlineToken : ofToken newlineToken = newline := rfl

theorem ofToken_token {s : Symbol} (h : s.text ≠ newlineToken) : ofToken s.token = s := by
  unfold token
  split
  · next hs => rw [hs, ofToken_newlineToken]
  · unfold ofToken
    rw [if_neg h]

end Symbol

end BraceGrammar
