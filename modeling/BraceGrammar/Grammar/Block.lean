import BraceGrammar.Grammar
import BraceGrammar.Token

/-!
# Blocks

The notation, a block at a time.  A block reaches from an opening brace to the next closing one, or
to the end.  Its first token, whatever it is, is the head; the others are bodies, each closed by a
semicolon, and what comes after the last semicolon counts for nothing.  A block that closes at once
declares nothing, and so does an opening brace at the very end.
-/

namespace BraceGrammar

/-- A head and its bodies. -/
abbrev Block := Symbol × List Body

namespace Block

/-- The block of a head and the tokens between it and the end of the block. -/
def ofTokens (head : String) (content : List String) : Block :=
  (⟨head⟩, (content.splitOn Token.bodyEnd).dropLast.map (·.map Symbol.ofToken))

theorem length_dropWhile_le {α : Type} (p : α → Bool) (l : List α) :
    (l.dropWhile p).length ≤ l.length :=
  (List.dropWhile_sublist p).length_le

/-- All blocks of a list of tokens. -/
def readAll (tokens : List String) : List Block :=
  match _ : tokens.dropWhile (· ≠ Token.blockStart) with
  | [] | [_] => []
  | _ :: head :: rest =>
    if head = Token.blockEnd then readAll rest
    else
      ofTokens head (rest.takeWhile (· ≠ Token.blockEnd)) ::
        readAll ((rest.dropWhile (· ≠ Token.blockEnd)).drop 1)
termination_by tokens.length
decreasing_by
  all_goals
    have h := length_dropWhile_le (· ≠ Token.blockStart) tokens
    simp_all only [List.length_cons]
  · omega
  · have h' := length_dropWhile_le (fun t => !decide (t = Token.blockEnd)) rest
    simp only [ne_eq, decide_not, List.length_drop] at *
    omega

end Block

/-- The grammar of a list of blocks: heads stand in the order of their first blocks and have the
bodies of their last, and the first head is the start symbol. -/
def Grammar.ofBlocks (blocks : List Block) : Grammar :=
  ⟨.ofList blocks, blocks.head?.map Prod.fst⟩

end BraceGrammar
