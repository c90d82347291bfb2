import BraceGrammar.Proofs.Feeding
import BraceGrammar.Proofs.Image

/-!
# Line ends behind the last block

A line end behind the closing brace of a text becomes a part of the brace's token, so that the last
block stays open and what follows belongs to its last body.  Nothing is lost by that: tokens that
open no block and close no body leave the table and the start symbol as they are, in every mode but
the one where a head is expected (`grammar_feed_of_isQuiet`).

There a brace with a line end behind it is a head, and without it closes an empty block.  The text
that a grammar is written as never ends so, since its blocks have heads (`feed_blockTokens`).
-/

namespace BraceGrammar

namespace Token

/-- Tokens that open no block and close no body. -/
def IsQuiet (token : String) : Prop := token ≠ blockStart ∧ token ≠ bodyEnd

/-- Line ends make quiet tokens, by themselves and behind a closing brace. -/
theorem isQuiet_of_mem_split {text t : String} (h : ∀ c ∈ text.toList, c ∈ ['\x7d', '\r', '\n'])
    (ht : t ∈ split text) : IsQuiet t := by
  have hmem : ∀ c ∈ t.toList, c ∈ ['\x7d', '\r', '\n'] := fun c hc => h c (mem_of_mem_split ht hc)
  constructor
  · rintro rfl
    exact absurd (hmem '\x7b' (by decide)) (by decide)
  · rintro rfl
    exact absurd (hmem ';' (by decide)) (by decide)

end Token

namespace Parser

variable {p q : Parser} {token : String} {tokens : List String}

/-! ## Quiet tokens -/

/-- Unless a head is expected, a quiet token leaves what has been read as it is, and no head is
expected behind it. -/
theorem grammar_advance_of_isQuiet (hmode : p.mode ≠ .expectHead) (h : Token.IsQuiet token)
    (hq : p.advance token = .ok q) : q.grammar = p.grammar ∧ q.mode ≠ .expectHead := by
  obtain ⟨r, hreads, rfl⟩ := exists_reads_of_advance hq
  generalize p.mode.next token = next at hreads ⊢
  generalize p.mode = mode at hmode hreads
  cases hreads with
  | blockStart => exact absurd rfl h.1
  | skip | blockEnd | symbol => exact ⟨rfl, by simp⟩
  | head => exact absurd rfl hmode
  | bodyEnd => exact absurd rfl h.2

theorem grammar_feed_of_isQuiet (hmode : p.mode ≠ .expectHead)
    (h : ∀ token ∈ tokens, Token.IsQuiet token) : (p.feed tokens).1.grammar = p.grammar := by
  induction tokens generalizing p with
  | nil => rw [feed_nil]
  | cons token tokens ih =>
      rw [List.forall_mem_cons] at h
      rw [feed_cons]
      cases hadvance : p.advance token with
      | error e => rfl
      | ok q =>
          obtain ⟨hq, hqmode⟩ := grammar_advance_of_isQuiet hmode h.1 hadvance
          exact (ih hqmode h.2).trans hq

/-! ## The end of a written grammar -/

variable {g : Grammar}

/-- Written blocks are closed when they have been read. -/
theorem feed_blockTokens {blocks : List Block} (h : ∀ b ∈ blocks, b.IsWritable)
    (rest : List String) :
    (resting g).feed ((blocks.flatMap fun b => Table.blockTokens b.1 b.2) ++ rest) =
      (resting (g.declare blocks)).feed rest := by
  induction blocks generalizing g with
  | nil => rw [List.flatMap_nil, List.nil_append, Grammar.declare_nil]
  | cons b blocks ih =>
      rw [List.forall_mem_cons] at h
      have hcontent := Block.blockEnd_notMem_contentTokens h.1
      have hdeclare : g.declare (b :: blocks) = (g.declare [b]).declare blocks :=
        g.declare_append [b] blocks
      rw [List.flatMap_cons, Block.blockTokens_eq, hdeclare, ← ih h.2]
      simp only [List.cons_append, List.append_assoc, List.nil_append]
      rw [feed_block g h.1.1.2 hcontent, Block.ofTokens_contentTokens h.1]

/-- Behind all tokens of written blocks but the last no head is expected. -/
theorem mode_feed_dropLast_blockTokens {blocks : List Block} (h : ∀ b ∈ blocks, b.IsWritable)
    (hne : blocks ≠ []) :
    ∃ before, (blocks.flatMap fun b => Table.blockTokens b.1 b.2) = before ++ [Token.blockEnd] ∧
      (feed {} before).1.mode ≠ .expectHead := by
  obtain ⟨others, b, rfl⟩ := (List.eq_nil_or_concat blocks).resolve_left hne
  rw [List.concat_eq_append, List.forall_mem_append] at h
  obtain ⟨hothers, hb⟩ := h
  have hb : b.IsWritable := hb b (List.mem_singleton_self b)
  let opened := Token.blockStart :: b.1.text :: Block.contentTokens b.2
  refine ⟨(others.flatMap fun b => Table.blockTokens b.1 b.2) ++ opened, ?_, ?_⟩
  · simp [opened, Block.blockTokens_eq]
  · obtain ⟨q, hfeed, hmode, -⟩ := feed_openBlock (Grammar.declare {} others) hb.1.2
      (Block.blockEnd_notMem_contentTokens hb)
    change ((resting {}).feed _).1.mode ≠ _
    rw [feed_blockTokens hothers, hfeed]
    simp [hmode]

end Parser

namespace Grammar

/-- More quiet tokens declare nothing, unless a head is expected before them. -/
theorem ofTokens_append_of_isQuiet {before more : List String}
    (hmode : (Parser.feed {} before).1.mode ≠ .expectHead)
    (h : ∀ token ∈ more, Token.IsQuiet token) : ofTokens (before ++ more) = ofTokens before := by
  have hnone := Parser.feed_new before
  unfold ofTokens
  rw [Parser.feed_append]
  generalize Parser.feed {} before = fed at hmode hnone ⊢
  obtain ⟨p, e?⟩ := fed
  obtain rfl : e? = none := hnone
  exact Parser.grammar_feed_of_isQuiet hmode h

section LineEnds

variable {ends : String} (hends : ∀ c ∈ ends.toList, c = '\r' ∨ c = '\n')

include hends

/-- The last token of a text may have line ends behind it if it closes a block or is empty. -/
theorem ofSource_append_of_split {text last : String} {before : List String}
    (htext : Token.split text = before ++ [last]) (hlast : last = "" ∨ last = Token.blockEnd)
    (hmode : (Parser.feed {} before).1.mode ≠ .expectHead) :
    ofSource (text ++ ends) = ofSource text := by
  have hchars : ∀ c ∈ (last ++ ends).toList, c ∈ ['\x7d', '\r', '\n'] := by
    intro c hc
    rw [String.toList_append, List.mem_append] at hc
    rcases hc with hc | hc
    · rcases hlast with rfl | rfl
      · cases hc
      · simpa [Token.blockEnd] using Or.inl hc
    · exact List.mem_cons_of_mem _ (by simpa using hends c hc)
  have hquiet : Token.IsQuiet last := by rcases hlast with rfl | rfl <;> exact ⟨by decide, by decide⟩
  rw [ofSource, ofSource, Token.split_append htext, htext,
    ofTokens_append_of_isQuiet hmode fun t ht => Token.isQuiet_of_mem_split hchars ht,
    ofTokens_append_of_isQuiet hmode fun t ht => List.mem_singleton.1 ht ▸ hquiet]

/-- A written grammar may have line ends behind it. -/
theorem ofSource_toSource_append {g : Grammar} (h : g.table.IsWritable) :
    ofSource (g.toSource ++ ends) = ofSource g.toSource := by
  by_cases hempty : g.entriesFromStart = []
  · have hblank : Token.split "" = [] ++ [""] := Token.split_of_isWhole (by decide)
    rw [toSource_of_entriesFromStart_eq_nil g hempty]
    exact ofSource_append_of_split hends hblank (.inl rfl) (by simp [Parser.feed_nil])
  · have hblocks : ∀ b ∈ g.entriesFromStart, Block.IsWritable b :=
      fun b hb => h b (g.mem_of_mem_entriesFromStart hb)
    obtain ⟨before, htokens, hmode⟩ := Parser.mode_feed_dropLast_blockTokens hblocks hempty
    exact ofSource_append_of_split hends ((split_toSource g h hempty).trans htokens) (.inr rfl) hmode

end LineEnds

/-- A text whose last token closes a block, where no head is expected, may have line ends behind it.
So may the text that a grammar is written as when it has been read, which reads as the grammar with
them too. -/
theorem ofSource_append_lineEnds (ends : String)
    (hends : ∀ c ∈ ends.toList, c = '\r' ∨ c = '\n') :
    (∀ text, (Token.split text).getLast? = some Token.blockEnd →
      (Parser.feed {} (Token.split text).dropLast).1.mode ≠ .expectHead →
      ofSource (text ++ ends) = ofSource text) ∧
    ∀ text, ofSource ((ofSource text).toSource ++ ends) = ofSource text := by
  constructor
  · intro text hlast hmode
    obtain ⟨before, htext⟩ := List.getLast?_eq_some_iff.1 hlast
    rw [htext, List.dropLast_concat] at hmode
    exact ofSource_append_of_split hends htext (.inr rfl) hmode
  · intro text
    rw [ofSource_toSource_append hends (isWritable_ofSource text).1]
    exact ofSource_toSource_eq_self (isWritable_ofSource text).1 (start?_ofSource text)

/-- Where a head is expected, a brace with a line end behind it is one. -/
example : (ofSource "\x7b \x7d").start? = none ∧ (ofSource "\x7b \x7d\n").start? = some ⟨"\x7d\n"⟩ := by
  decide

/-- A body is still open when the block is closed. -/
def openBody : String := "\x7b <S> a ; b \x7d"

theorem ofSource_openBody_append :
    (∀ c ∈ "\n\r\n\r".toList, c = '\r' ∨ c = '\n') ∧
      (Token.split openBody).getLast? = some Token.blockEnd ∧
      (Parser.feed {} (Token.split openBody).dropLast).1.mode ≠ .expectHead ∧
      Token.split (openBody ++ "\n\r\n\r") =
        ["\x7b", "<S>", "a", ";", "b", "\x7d\n", "\r"] ∧
      ofSource (openBody ++ "\n\r\n\r") = ofSource openBody ∧
      ofSource ((ofSource openBody).toSource ++ "\n\r\n\r") = ofSource openBody := by
  have hends : ∀ c ∈ "\n\r\n\r".toList, c = '\r' ∨ c = '\n' := by simp
  have hlast : (Token.split openBody).getLast? = some Token.blockEnd := by decide
  have hmode : (Parser.feed {} (Token.split openBody).dropLast).1.mode ≠ .expectHead := by decide
  obtain ⟨htexts, hwritten⟩ := ofSource_append_lineEnds _ hends
  exact ⟨hends, hlast, hmode, by decide, htexts openBody hlast hmode, hwritten openBody⟩

end Grammar

end BraceGrammar
