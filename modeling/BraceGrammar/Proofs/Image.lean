import BraceGrammar.Proofs.RoundTrip

/-!
# The grammars that texts declare

Texts declare just the grammars that are writable and have their first head for start symbol
(`exists_ofSource_iff`).  One direction is what reading does: blocks give the start symbol and the
first head at once (`start?_ofBlocks`).  For the other a text has to be found, and the one that the
grammar is written as will do: its entries are then written in the order that they have
(`entriesFromStart_eq_entries`), so that they are read in this order too.

Writing a grammar that has been read, and reading it again, therefore changes nothing.
-/

namespace BraceGrammar

namespace Grammar

/-- The start symbol of blocks is their first head. -/
theorem start?_ofBlocks (blocks : List Block) :
    (ofBlocks blocks).start? = (ofBlocks blocks).table.heads.head? := by
  have hheads : (ofBlocks blocks).table.heads = (blocks.map Prod.fst).eraseDups :=
    OrderedMap.keys_ofList blocks
  rw [hheads]
  cases blocks with
  | nil => rfl
  | cons b blocks =>
      rw [List.map_cons, List.eraseDups_cons, List.head?_cons]
      rfl

variable {g : Grammar}

/-- When the start symbol is the first head, the entries are written in their own order. -/
theorem entriesFromStart_eq_entries (h : g.start? = g.table.heads.head?) :
    g.entriesFromStart = g.table.entries := by
  rcases g.entriesFromStart_cases with heq | ⟨S, bodies, hstart, hfind, heq⟩
  · exact heq
  · have hnodup := g.table.keys_nodup
    have hmem : (S, bodies) ∈ g.table.entries := (g.table.mem_entries_iff S bodies).2 hfind
    have hhead : (g.table.entries.map Prod.fst).head? = some S := h.symm.trans hstart
    rw [heq]
    change (S, bodies) :: g.table.entries.filter (fun e => e.1 ≠ S) = g.table.entries
    cases hentries : g.table.entries with
    | nil => simp [hentries] at hmem
    | cons e others =>
        rw [hentries, List.map_cons, List.head?_cons, Option.some.injEq] at hhead
        rw [hentries, List.map_cons, List.nodup_cons, hhead] at hnodup
        have hothers : ∀ e' ∈ others, e'.1 ≠ S := by
          intro e' he' hS
          exact hnodup.1 (hS ▸ List.mem_map_of_mem he')
        have hfilter : others.filter (fun e => e.1 ≠ S) = others := by
          rw [List.filter_eq_self]
          intro e' he'
          exact decide_eq_true (hothers e' he')
        have hfirst : (S, bodies) = e := by
          rw [hentries, List.mem_cons] at hmem
          rcases hmem with heq | hmem
          · exact heq
          · exact absurd rfl (hothers _ hmem)
        rw [List.filter_cons_of_neg (by simp [hhead]), hfilter, hfirst]

theorem ofSource_toSource_eq_self (hwritable : g.table.IsWritable)
    (hstart : g.start? = g.table.heads.head?) : ofSource g.toSource = g := by
  have hread := ofSource_toSource g hwritable
  have hentries : (ofSource g.toSource).table.entries = g.table.entries := by
    rw [entries_ofSource_toSource g hwritable, entriesFromStart_eq_entries hstart]
  have htable : (ofSource g.toSource).table = g.table := OrderedMap.ext hentries
  have hstart' : (ofSource g.toSource).start? = g.start? := by
    rw [hstart, ← htable, hread, start?_ofBlocks]
  calc ofSource g.toSource
      = ⟨(ofSource g.toSource).table, (ofSource g.toSource).start?⟩ := rfl
    _ = ⟨g.table, g.start?⟩ := by rw [htable, hstart']

theorem start?_ofSource (text : String) :
    (ofSource text).start? = (ofSource text).table.heads.head? := by
  rw [ofSource_eq_ofBlocks]
  exact start?_ofBlocks _

/-- Reading never fails, and texts declare just the grammars whose heads and symbols can be written
and whose start symbol is the first head.  A grammar that has been read is therefore read again,
with its heads in their order, from the text that it is written as. -/
theorem exists_ofSource_iff :
    (∀ text, (Parser.feed {} (Token.split text)).2 = none) ∧
      (∀ g : Grammar, (∃ text, ofSource text = g) ↔
        g.table.IsWritable ∧ g.start? = g.table.heads.head?) ∧
      ∀ text, ofSource (ofSource text).toSource = ofSource text := by
  have himage : ∀ text, (ofSource text).table.IsWritable ∧
      (ofSource text).start? = (ofSource text).table.heads.head? :=
    fun text => ⟨(isWritable_ofSource text).1, start?_ofSource text⟩
  refine ⟨fun text => ?_, fun g => ⟨?_, ?_⟩, fun text => ?_⟩
  · exact Parser.feed_new (Token.split text)
  · rintro ⟨text, rfl⟩
    exact himage text
  · rintro ⟨hwritable, hstart⟩
    exact ⟨g.toSource, ofSource_toSource_eq_self hwritable hstart⟩
  · exact ofSource_toSource_eq_self (himage text).1 (himage text).2

end Grammar

end BraceGrammar
