import BraceGrammar.Proofs.Blocks
import BraceGrammar.Proofs.Token

/-!
# Texts one after the other

A closing brace between two lists of tokens parts their blocks (`Block.readAll_append_blockEnd`): it
closes the block that is open before it, if there is one, and is skipped otherwise, so that the
tokens behind it are read as they would be alone.

The grammar of two texts with a closing brace between them is therefore that of the first with the
blocks of the second declared on top.  Heads of the first keep their places, heads that only the
second has come behind them in their order, and where both have bodies those of the second count.
-/

namespace BraceGrammar

namespace Block

/-- Tokens without an opening brace are skipped. -/
theorem readAll_append_of_notMem {xs : List String} (h : Token.blockStart ∉ xs) (ys : List String) :
    readAll (xs ++ ys) = readAll ys := by
  have hdrop : (xs ++ ys).dropWhile (· ≠ Token.blockStart) =
      ys.dropWhile (· ≠ Token.blockStart) :=
    List.dropWhile_append_of_pos (forall_ne_of_notMem h)
  rw [readAll, hdrop]
  conv =>
    rhs
    rw [readAll]

theorem readAll_append_dropWhile (xs ys : List String) :
    readAll (xs ++ ys) = readAll (xs.dropWhile (· ≠ Token.blockStart) ++ ys) := by
  have hxs : xs ++ ys = xs.takeWhile (· ≠ Token.blockStart) ++
      (xs.dropWhile (· ≠ Token.blockStart) ++ ys) := by
    rw [← List.append_assoc, List.takeWhile_append_dropWhile]
  rw [hxs, readAll_append_of_notMem (notMem_takeWhile _ _)]

theorem readAll_emptyBlock (rest : List String) :
    readAll (Token.blockStart :: Token.blockEnd :: rest) = readAll rest := by
  rw [readAll]
  split
  · next h => simp at h
  · next h => simp at h
  · next h =>
    rw [List.dropWhile_cons_of_neg (by simp), List.cons.injEq, List.cons.injEq] at h
    obtain ⟨-, rfl, rfl⟩ := h
    rw [if_pos rfl]

/-- A closing brace parts the blocks before it from those behind it. -/
theorem readAll_append_blockEnd (xs ys : List String) :
    readAll (xs ++ Token.blockEnd :: ys) = readAll xs ++ readAll ys := by
  have hskip : readAll ([Token.blockEnd] ++ ys) = readAll ys :=
    readAll_append_of_notMem (by decide) ys
  rw [List.singleton_append] at hskip
  fun_induction readAll xs with
  | case1 xs h =>
      rw [readAll_append_dropWhile, h, List.nil_append, List.nil_append, hskip]
  | case2 xs start h =>
      obtain rfl := eq_of_dropWhile_eq_cons h
      rw [readAll_append_dropWhile, h, List.singleton_append, readAll_emptyBlock, List.nil_append]
  | case3 xs start rest h ih =>
      obtain rfl := eq_of_dropWhile_eq_cons h
      rw [readAll_append_dropWhile, h, List.cons_append, List.cons_append, readAll_emptyBlock, ih]
  | case4 xs start head rest h hhead ih =>
      obtain rfl := eq_of_dropWhile_eq_cons h
      rw [readAll_append_dropWhile, h]
      have hread := readAll_block hhead (notMem_takeWhile Token.blockEnd rest)
      have hrest : rest.takeWhile (· ≠ Token.blockEnd) ++
          rest.dropWhile (· ≠ Token.blockEnd) = rest :=
        List.takeWhile_append_dropWhile
      generalize rest.takeWhile (· ≠ Token.blockEnd) = content at hread hrest ⊢
      cases hafter : rest.dropWhile (· ≠ Token.blockEnd) with
      | nil =>
          -- the last block is open, and the brace closes it
          have hnil : readAll [] = [] := readAll_of_notMem List.not_mem_nil
          rw [hafter, List.append_nil] at hrest
          rw [← hrest, List.cons_append, List.cons_append, hread, List.drop_nil, hnil]
          rfl
      | cons close after =>
          obtain rfl := eq_of_dropWhile_eq_cons hafter
          rw [hafter] at hrest ih
          rw [List.drop_one, List.tail_cons] at ih ⊢
          rw [← hrest, List.cons_append, List.cons_append, List.append_assoc, List.cons_append,
            hread, ih]
          rfl

end Block

namespace Grammar

/-- Blocks declared after others are declared on top of the grammar of those. -/
theorem ofBlocks_append (xs ys : List Block) : ofBlocks (xs ++ ys) = (ofBlocks xs).declare ys :=
  declare_append {} xs ys

theorem readAll_split_append_blockEnd (s t : String) :
    Block.readAll (Token.split (s ++ " \x7d " ++ t)) =
      Block.readAll (Token.split s) ++ Block.readAll (Token.split t) := by
  have htext : s ++ " \x7d " ++ t = s ++ " " ++ (Token.blockEnd ++ " " ++ t) := by
    have hbrace : " \x7d " = " " ++ Token.blockEnd ++ " " := by decide
    rw [hbrace, ← String.append_assoc, ← String.append_assoc, ← String.append_assoc,
      ← String.append_assoc]
  have hbrace : Token.split Token.blockEnd = [Token.blockEnd] := Token.split_of_isWhole (by decide)
  rw [htext, Token.split_append_blank, Token.split_append_blank, hbrace, List.singleton_append,
    Block.readAll_append_blockEnd]

/-- Two texts with a closing brace between them, whatever the first one leaves open, are read as the
first with the second on top.  The heads of the first come first, then the other heads of the
second; a head of the second has its bodies from there, and any other head has those of the first;
the start symbol is that of the first if it has one. -/
theorem ofSource_append_blockEnd (s t : String) :
    (ofSource (s ++ " \x7d " ++ t)).table.heads =
        (ofSource s).table.heads ++
          (ofSource t).table.heads.filter (· ∉ (ofSource s).table.heads) ∧
      (∀ X, (ofSource (s ++ " \x7d " ++ t)).table.bodies? X =
        ((ofSource t).table.bodies? X).or ((ofSource s).table.bodies? X)) ∧
      (ofSource (s ++ " \x7d " ++ t)).start? = (ofSource s).start?.or (ofSource t).start? := by
  have hsource : ofSource (s ++ " \x7d " ++ t) =
      (ofSource s).declare (Block.readAll (Token.split t)) := by
    rw [ofSource_eq_ofBlocks, readAll_split_append_blockEnd, ofBlocks_append, ofSource_eq_ofBlocks]
  rw [hsource, ofSource_eq_ofBlocks t]
  refine ⟨?_, fun X => ?_, rfl⟩
  · exact OrderedMap.keys_insertEach_eq_append (ofSource s).table _
  · exact OrderedMap.find?_insertEach_eq_or (ofSource s).table _ X

end Grammar

end BraceGrammar
