import BraceGrammar.Proofs.Blocks
import BraceGrammar.Proofs.Token

/-!
# What is read can be written

Every grammar that is read from a text is writable (`isWritable_ofSource`): its symbols come from
whole tokens, no head closes a block, and no symbol of a body closes a body or a block or is the
token of the newline symbol, which has been read as the newline symbol.

Whether a grammar is writable depends only on its start symbol and on which bodies each head has
(`isWritable_congr`), and not on the order of the heads.
-/

namespace BraceGrammar

/-! ## Symbols -/

theorem Symbol.isWritable_ofToken {token : String} (hwhole : Token.IsWhole token)
    (hend : token ≠ Token.blockEnd) (hbody : token ≠ Token.bodyEnd) :
    (Symbol.ofToken token).IsWritable := by
  unfold ofToken
  split
  · decide
  · next h => exact ⟨hwhole, hend, hbody, h⟩

/-! ## Blocks -/

/-- Blocks all of whose symbols can be written. -/
def Block.IsWritable (b : Block) : Prop :=
  b.1.IsWritableHead ∧ ∀ body ∈ b.2, ∀ s ∈ body, s.IsWritable

namespace Block

theorem isWritable_ofTokens {head : String} {content : List String} (hhead : Token.IsWhole head)
    (hend : head ≠ Token.blockEnd) (hwhole : ∀ t ∈ content, Token.IsWhole t)
    (hcontent : Token.blockEnd ∉ content) : (ofTokens head content).IsWritable := by
  refine ⟨⟨hhead, hend⟩, fun body hbody s hs => ?_⟩
  obtain ⟨piece, hpiece, rfl⟩ := List.mem_map.1 hbody
  obtain ⟨token, htoken, rfl⟩ := List.mem_map.1 hs
  have hsplit : piece ∈ content.splitOn Token.bodyEnd := List.dropLast_subset _ hpiece
  have hmem : token ∈ content := (Token.infix_of_mem_splitOn hsplit).subset htoken
  refine Symbol.isWritable_ofToken (hwhole token hmem) ?_ ?_
  · rintro rfl
    exact hcontent hmem
  · rintro rfl
    exact Token.notMem_of_mem_splitOn hsplit htoken

theorem isWritable_of_mem_readAll {tokens : List String} (h : ∀ t ∈ tokens, Token.IsWhole t) :
    ∀ b ∈ readAll tokens, b.IsWritable := by
  fun_induction readAll tokens with
  | case1 => simp
  | case2 => simp
  | case3 tokens start rest hdrop ih =>
      have hsub : start :: Token.blockEnd :: rest ⊆ tokens := hdrop ▸ List.dropWhile_subset _
      exact ih fun t ht => h t (hsub (List.mem_cons_of_mem _ (List.mem_cons_of_mem _ ht)))
  | case4 tokens start head rest hdrop hhead ih =>
      have hsub : start :: head :: rest ⊆ tokens := hdrop ▸ List.dropWhile_subset _
      have hrest : ∀ t ∈ head :: rest, Token.IsWhole t :=
        fun t ht => h t (hsub (List.mem_cons_of_mem _ ht))
      rw [List.forall_mem_cons] at hrest ⊢
      refine ⟨isWritable_ofTokens hrest.1 hhead ?_ (notMem_takeWhile _ _), ih ?_⟩
      · exact fun t ht => hrest.2 t (List.takeWhile_subset _ ht)
      · exact fun t ht => hrest.2 t (List.dropWhile_subset _ (List.mem_of_mem_drop ht))

end Block

/-! ## Grammars -/

theorem Table.isWritable_iff (T : Table) :
    T.IsWritable ↔ ∀ X bodies, T.bodies? X = some bodies → Block.IsWritable (X, bodies) := by
  constructor
  · intro h X bodies hfind
    exact h (X, bodies) ((T.mem_entries_iff X bodies).2 hfind)
  · rintro h ⟨X, bodies⟩ hmem
    exact h X bodies ((T.mem_entries_iff X bodies).1 hmem)

namespace Grammar

theorem isWritable_congr {g h : Grammar} (hbodies : ∀ X, g.table.bodies? X = h.table.bodies? X)
    (hstart : g.start? = h.start?) : g.IsWritable ↔ h.IsWritable := by
  have hheads : ∀ X, X ∈ g.table.heads ↔ X ∈ h.table.heads := by
    intro X
    rw [OrderedMap.mem_keys_iff, OrderedMap.mem_keys_iff]
    exact iff_of_eq (congrArg (Option.isSome · = true) (hbodies X))
  have htable : g.table.IsWritable ↔ h.table.IsWritable := by
    rw [Table.isWritable_iff, Table.isWritable_iff]
    simp only [hbodies]
  unfold IsWritable
  rw [htable, hstart]
  cases h.start? with
  | none => simp only [List.eq_nil_iff_forall_not_mem, hheads]
  | some S => simp only [hheads]

/-- The start symbol of a grammar that can be written has an entry. -/
theorem IsWritable.exists_bodies_of_start {g : Grammar} (h : g.IsWritable) {S : Symbol}
    (hstart : g.start? = some S) : ∃ bodies, g.table.bodies? S = some bodies := by
  have hhead := h.2
  rw [hstart] at hhead
  exact Option.isSome_iff_exists.1 ((g.table.mem_keys_iff S).1 hhead)

theorem isWritable_ofBlocks {blocks : List Block} (h : ∀ b ∈ blocks, b.IsWritable) :
    (ofBlocks blocks).IsWritable := by
  refine ⟨?_, ?_⟩
  · rw [Table.isWritable_iff]
    intro X bodies hfind
    have hlookup : blocks.reverse.lookup X = some bodies := by
      rw [← OrderedMap.find?_ofList]
      exact hfind
    obtain ⟨before, after, hblocks, -⟩ := List.lookup_eq_some_iff.1 hlookup
    refine h _ (List.mem_reverse.1 ?_)
    rw [hblocks]
    simp
  · cases blocks with
    | nil => rfl
    | cons b blocks =>
        change b.1 ∈ (OrderedMap.ofList (b :: blocks)).keys
        rw [OrderedMap.keys_ofList, List.mem_eraseDups]
        exact List.mem_cons_self

/-- What is read from a text can be written. -/
theorem isWritable_ofSource (text : String) : (ofSource text).IsWritable := by
  rw [ofSource_eq_ofBlocks]
  exact isWritable_ofBlocks (Block.isWritable_of_mem_readAll fun _ => Token.isWhole_of_mem_split)

end Grammar

end BraceGrammar
