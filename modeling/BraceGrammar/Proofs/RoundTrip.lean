import BraceGrammar.Grammar.Source
import BraceGrammar.Proofs.Writable

/-!
# Writing and reading back

The text of a grammar is its blocks' tokens side by side (`toSource_eq_join`).  On writable symbols
these tokens are whole, so cutting the text gives them back (`split_toSource`), and reading them by
blocks gives the entries that were written (`readAll_flatMap_blockTokens`).

A grammar therefore reads back from its text when it is writable.  When it is not, no text at all
reads as it, since everything that is read is writable: so exactly the writable grammars read back.
-/

namespace BraceGrammar

namespace Symbol

theorem isWhole_token {s : Symbol} (h : s.IsWritable) : Token.IsWhole s.token := by
  unfold token
  split
  · decide
  · exact h.1

theorem token_ne_blockEnd {s : Symbol} (h : s.IsWritable) : s.token ≠ Token.blockEnd := by
  unfold token
  split
  · decide
  · exact h.2.1

theorem token_ne_bodyEnd {s : Symbol} (h : s.IsWritable) : s.token ≠ Token.bodyEnd := by
  unfold token
  split
  · decide
  · exact h.2.2.1

end Symbol

namespace Block

/-- The tokens between a block's head and its end. -/
def contentTokens (bodies : List Body) : List String :=
  bodies.flatMap fun body => body.map Symbol.token ++ [Token.bodyEnd]

theorem blockTokens_eq (b : Block) :
    Table.blockTokens b.1 b.2 =
      Token.blockStart :: b.1.text :: (contentTokens b.2 ++ [Token.blockEnd]) := rfl

theorem mem_contentTokens {bodies : List Body} {t : String} :
    t ∈ contentTokens bodies ↔
      ∃ body ∈ bodies, (∃ s ∈ body, s.token = t) ∨ t = Token.bodyEnd := by
  simp [contentTokens]

theorem contentTokens_cons (body : Body) (bodies : List Body) :
    contentTokens (body :: bodies) =
      body.map Symbol.token ++ Token.bodyEnd :: contentTokens bodies := by
  rw [contentTokens, List.flatMap_cons, List.append_assoc, List.singleton_append]
  rfl

theorem splitOn_contentTokens {bodies : List Body}
    (h : ∀ body ∈ bodies, ∀ s ∈ body, s.IsWritable) :
    (contentTokens bodies).splitOn Token.bodyEnd = bodies.map (·.map Symbol.token) ++ [[]] := by
  induction bodies with
  | nil => rfl
  | cons body bodies ih =>
      rw [List.forall_mem_cons] at h
      have hbody : Token.bodyEnd ∉ body.map Symbol.token := by
        rw [List.mem_map]
        rintro ⟨s, hs, htoken⟩
        exact Symbol.token_ne_bodyEnd (h.1 s hs) htoken
      rw [contentTokens_cons, List.splitOn_append_cons_self_of_not_mem hbody, ih h.2]
      rfl

theorem map_ofToken_map_token {body : Body} (h : ∀ s ∈ body, s.IsWritable) :
    (body.map Symbol.token).map Symbol.ofToken = body := by
  have hid : ∀ s ∈ body, (Symbol.ofToken ∘ Symbol.token) s = id s :=
    fun s hs => Symbol.ofToken_token (h s hs).2.2.2
  rw [List.map_map, List.map_congr_left hid, List.map_id]

section Writable

variable {b : Block} (h : b.IsWritable)

include h

theorem isWhole_of_mem_blockTokens :
    ∀ t ∈ Table.blockTokens b.1 b.2, Token.IsWhole t := by
  intro t ht
  rw [blockTokens_eq, List.mem_cons, List.mem_cons, List.mem_append, List.mem_singleton] at ht
  rcases ht with rfl | rfl | ht | rfl
  · decide
  · exact h.1.1
  · obtain ⟨body, hbody, ⟨s, hs, rfl⟩ | rfl⟩ := mem_contentTokens.1 ht
    · exact Symbol.isWhole_token (h.2 body hbody s hs)
    · decide
  · decide

theorem blockEnd_notMem_contentTokens : Token.blockEnd ∉ contentTokens b.2 := by
  intro hmem
  obtain ⟨body, hbody, ⟨s, hs, htoken⟩ | hend⟩ := mem_contentTokens.1 hmem
  · exact Symbol.token_ne_blockEnd (h.2 body hbody s hs) htoken
  · exact absurd hend (by decide)

/-- A block's head and content tokens say what the block is. -/
theorem ofTokens_contentTokens : ofTokens b.1.text (contentTokens b.2) = b := by
  obtain ⟨X, bodies⟩ := b
  have hid : ∀ body ∈ bodies, ((·.map Symbol.ofToken) ∘ (·.map Symbol.token)) body = id body :=
    fun body hbody => map_ofToken_map_token (h.2 body hbody)
  rw [ofTokens, splitOn_contentTokens h.2, List.dropLast_concat, List.map_map,
    List.map_congr_left hid, List.map_id]

/-- A written block is read as itself. -/
theorem readAll_blockTokens_append (rest : List String) :
    readAll (Table.blockTokens b.1 b.2 ++ rest) = b :: readAll rest := by
  have htokens : Table.blockTokens b.1 b.2 ++ rest =
      Token.blockStart :: b.1.text :: (contentTokens b.2 ++ Token.blockEnd :: rest) := by
    rw [blockTokens_eq, List.cons_append, List.cons_append, List.append_assoc,
      List.singleton_append]
  rw [htokens, readAll_block h.1.2 (blockEnd_notMem_contentTokens h), ofTokens_contentTokens h]

end Writable

theorem readAll_flatMap_blockTokens {blocks : List Block} (h : ∀ b ∈ blocks, b.IsWritable) :
    readAll (blocks.flatMap fun b => Table.blockTokens b.1 b.2) = blocks := by
  induction blocks with
  | nil => simp [readAll]
  | cons b blocks ih =>
      rw [List.forall_mem_cons] at h
      rw [List.flatMap_cons, readAll_blockTokens_append h.1, ih h.2]

end Block

namespace Token

theorem join_append {xs ys : List String} (hx : xs ≠ []) (hy : ys ≠ []) :
    join (xs ++ ys) = join xs ++ " " ++ join ys :=
  String.intercalate_append_of_ne_nil hx hy

theorem join_cons {t : String} {tokens : List String} (h : tokens ≠ []) :
    join (t :: tokens) = t ++ " " ++ join tokens :=
  String.intercalate_cons_of_ne_nil h

/-- Joining piece by piece, when no piece is empty. -/
theorem join_map_join {pieces : List (List String)} (h : ∀ piece ∈ pieces, piece ≠ []) :
    join (pieces.map join) = join pieces.flatten := by
  induction pieces with
  | nil => rfl
  | cons piece pieces ih =>
      rw [List.forall_mem_cons] at h
      by_cases hlast : pieces = []
      · subst hlast
        simp [join]
      · have hmap : pieces.map join ≠ [] := by simpa using hlast
        have hflat : pieces.flatten ≠ [] := by
          obtain ⟨second, others, rfl⟩ := List.exists_cons_of_ne_nil hlast
          intro hempty
          rw [List.flatten_cons, List.append_eq_nil_iff] at hempty
          exact h.2 second List.mem_cons_self hempty.1
        rw [List.map_cons, List.flatten_cons, join_cons hmap, join_append h.1 hflat, ih h.2]

end Token

namespace Grammar

variable (g : Grammar)

/-! ## The text of a grammar -/

theorem toSource_eq_join :
    g.toSource = Token.join (g.entriesFromStart.flatMap fun b => Table.blockTokens b.1 b.2) := by
  have hne : ∀ tokens ∈ g.entriesFromStart.map (fun b => Table.blockTokens b.1 b.2),
      tokens ≠ [] := by
    intro tokens htokens
    obtain ⟨b, -, rfl⟩ := List.mem_map.1 htokens
    exact List.cons_ne_nil _ _
  rw [List.flatMap_def, ← Token.join_map_join hne, List.map_map]
  rfl

/-! ## The entries in the order of writing -/

theorem entriesFromStart_of_find? {S : Symbol} {bodies : List Body} (hstart : g.start? = some S)
    (hfind : g.table.bodies? S = some bodies) :
    g.entriesFromStart = (S, bodies) :: (g.table.erase S).entries := by
  unfold entriesFromStart
  simp only [hstart, hfind]
  rfl

theorem entriesFromStart_cases :
    g.entriesFromStart = g.table.entries ∨
      ∃ S bodies, g.start? = some S ∧ g.table.bodies? S = some bodies ∧
        g.entriesFromStart = (S, bodies) :: (g.table.erase S).entries := by
  cases hstart : g.start? with
  | none =>
      left
      unfold entriesFromStart
      rw [hstart]
  | some S =>
      cases hfind : g.table.bodies? S with
      | none =>
          left
          unfold entriesFromStart
          simp only [hstart, hfind]
      | some bodies => exact Or.inr ⟨S, bodies, rfl, hfind, entriesFromStart_of_find? g hstart hfind⟩

theorem mem_of_mem_entriesFromStart {e : Symbol × List Body} (h : e ∈ g.entriesFromStart) :
    e ∈ g.table.entries := by
  rcases g.entriesFromStart_cases with heq | ⟨S, bodies, -, hfind, heq⟩
  · rwa [heq] at h
  · rw [heq] at h
    rcases List.mem_cons.1 h with rfl | h
    · exact (g.table.mem_entries_iff S bodies).2 hfind
    · exact (List.mem_filter.1 h).1

theorem nodup_entriesFromStart : (g.entriesFromStart.map Prod.fst).Nodup := by
  rcases g.entriesFromStart_cases with heq | ⟨S, bodies, -, -, heq⟩
  · rw [heq]
    exact g.table.keys_nodup
  · rw [heq, List.map_cons, List.nodup_cons]
    refine ⟨fun hmem => ?_, (g.table.erase S).keys_nodup⟩
    have hfind : ((g.table.erase S).find? S).isSome = true :=
      ((g.table.erase S).mem_keys_iff S).1 hmem
    rw [OrderedMap.find?_erase, if_pos rfl] at hfind
    simp at hfind

theorem lookup_entriesFromStart (X : Symbol) :
    g.entriesFromStart.lookup X = g.table.bodies? X := by
  rcases g.entriesFromStart_cases with heq | ⟨S, bodies, -, hfind, heq⟩
  · rw [heq]
    rfl
  · rw [heq, OrderedMap.lookup_cons_eq_if]
    change (if X = S then _ else (g.table.erase S).find? X) = _
    rw [OrderedMap.find?_erase]
    split
    · next h => rw [h, hfind]
    · rfl

/-- The heads in the order of writing. -/
theorem map_fst_entriesFromStart (h : g.IsWritable) :
    g.entriesFromStart.map Prod.fst =
      g.start?.toList ++ g.table.heads.filter fun X => some X ≠ g.start? := by
  obtain ⟨-, hstart⟩ := h
  cases hS : g.start? with
  | none =>
      rw [hS] at hstart
      have hentries : g.table.entries = [] := List.map_eq_nil_iff.1 hstart
      rcases g.entriesFromStart_cases with heq | ⟨S, bodies, hsome, -, -⟩
      · rw [heq, hentries, show g.table.heads = [] from hstart]
        rfl
      · rw [hS] at hsome
        cases hsome
  | some S =>
      rw [hS] at hstart
      obtain ⟨bodies, hfind⟩ := Option.isSome_iff_exists.1 ((g.table.mem_keys_iff S).1 hstart)
      have hfilter : (fun X => decide (some X ≠ some S)) = fun X => decide (X ≠ S) := by
        funext X
        simp
      rw [entriesFromStart_of_find? g hS hfind, hfilter, List.map_cons, Table.heads,
        OrderedMap.keys, List.filter_map]
      rfl

theorem head?_entriesFromStart (h : g.IsWritable) :
    g.entriesFromStart.head?.map Prod.fst = g.start? := by
  rw [← List.head?_map, g.map_fst_entriesFromStart h]
  obtain ⟨-, hstart⟩ := h
  cases hS : g.start? with
  | none =>
      rw [hS] at hstart
      rw [show g.table.heads = [] from hstart]
      rfl
  | some S => rfl

/-! ## Reading back -/

/-- The tokens of the text of a grammar are those of its blocks. -/
theorem split_toSource (h : g.table.IsWritable) (hempty : g.entriesFromStart ≠ []) :
    Token.split g.toSource = g.entriesFromStart.flatMap fun b => Table.blockTokens b.1 b.2 := by
  rw [toSource_eq_join]
  refine Token.split_join ?_ fun t ht => ?_
  · obtain ⟨b, others, heq⟩ := List.exists_cons_of_ne_nil hempty
    rw [heq, List.flatMap_cons]
    exact List.append_ne_nil_of_left_ne_nil (List.cons_ne_nil _ _) _
  · obtain ⟨b, hb, ht⟩ := List.mem_flatMap.1 ht
    exact Block.isWhole_of_mem_blockTokens (h b (g.mem_of_mem_entriesFromStart hb)) t ht

theorem toSource_of_entriesFromStart_eq_nil (h : g.entriesFromStart = []) : g.toSource = "" := by
  rw [toSource_eq_join, h]
  rfl

/-- The text of a grammar with a writable table declares its entries in the order of writing. -/
theorem ofSource_toSource (h : g.table.IsWritable) :
    ofSource g.toSource = ofBlocks g.entriesFromStart := by
  have hblocks : ∀ b ∈ g.entriesFromStart, Block.IsWritable b :=
    fun b hb => h b (g.mem_of_mem_entriesFromStart hb)
  rw [ofSource_eq_ofBlocks]
  by_cases hempty : g.entriesFromStart = []
  · have hblank : Token.split "" = [""] := Token.split_of_isWhole (by decide)
    have hnone : Block.readAll [""] = [] := Block.readAll_of_notMem (by decide)
    rw [toSource_of_entriesFromStart_eq_nil g hempty, hblank, hnone, hempty]
  · rw [split_toSource g h hempty, Block.readAll_flatMap_blockTokens hblocks]

theorem entries_ofSource_toSource (h : g.table.IsWritable) :
    (ofSource g.toSource).table.entries = g.entriesFromStart := by
  rw [ofSource_toSource g h]
  exact OrderedMap.entries_ofList g.nodup_entriesFromStart

/-- A grammar reads back from its text, with the same bodies for each head and the same start symbol,
if and only if it is writable.  The heads then come in their order with the start symbol in front. -/
theorem toSource_reads_back_iff :
    (((∀ X, (ofSource g.toSource).table.bodies? X = g.table.bodies? X) ∧
        (ofSource g.toSource).start? = g.start?) ↔ g.IsWritable) ∧
      (g.IsWritable → (ofSource g.toSource).table.heads =
        g.start?.toList ++ g.table.heads.filter fun X => some X ≠ g.start?) := by
  refine ⟨⟨?_, fun h => ⟨fun X => ?_, ?_⟩⟩, fun h => ?_⟩
  · rintro ⟨hbodies, hstart⟩
    exact (isWritable_congr hbodies hstart).1 (isWritable_ofSource g.toSource)
  · rw [Table.bodies?, OrderedMap.find?, entries_ofSource_toSource g h.1]
    exact g.lookup_entriesFromStart X
  · rw [ofSource_toSource g h.1]
    exact g.head?_entriesFromStart h
  · rw [Table.heads, OrderedMap.keys, entries_ofSource_toSource g h.1]
    exact g.map_fst_entriesFromStart h

/-- A writable grammar whose start symbol is its second head. -/
def startSecond : Grammar :=
  ⟨.ofList [(⟨"<B>"⟩, [[⟨"a"⟩, ⟨""⟩, .newline]]), (⟨"<S>"⟩, [[⟨"<B>"⟩], []])], some ⟨"<S>"⟩⟩

theorem startSecond_reads_back :
    startSecond.IsWritable ∧ (ofSource startSecond.toSource).start? = some ⟨"<S>"⟩ ∧
      (ofSource startSecond.toSource).table.heads = [⟨"<S>"⟩, ⟨"<B>"⟩] := by
  have hwritable : startSecond.IsWritable := by decide
  obtain ⟨hiff, hheads⟩ := toSource_reads_back_iff startSecond
  refine ⟨hwritable, (hiff.2 hwritable).2, ?_⟩
  rw [hheads hwritable]
  decide

end Grammar

end BraceGrammar
