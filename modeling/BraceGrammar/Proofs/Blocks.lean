import BraceGrammar.Grammar.Block
import BraceGrammar.Grammar.Parser
import BraceGrammar.Proofs.OrderedMap

/-!
# Parsing by blocks

A parser that rests between two blocks reads tokens as `Block.readAll` does: it meets no missing
entry, and what it has read in the end is what it had before with all blocks declared
(`feed_resting`).  Within a block it adds one body for each semicolon (`feed_content`).

Hence the grammar of a text: the heads stand in the order of their first blocks, each has the bodies
of its last block, and the first block gives the start symbol.
-/

namespace BraceGrammar

/-- Declares blocks one after the other.  The first one gives the start symbol if there is none. -/
def Grammar.declare (g : Grammar) (blocks : List Block) : Grammar :=
  ⟨g.table.insertEach blocks, g.start?.or (blocks.head?.map Prod.fst)⟩

namespace Grammar

variable (g : Grammar)

theorem declare_nil : g.declare [] = g := by
  unfold declare
  rw [List.head?_nil, Option.map_none, Option.or_none]
  rfl

theorem declare_append (xs ys : List Block) : g.declare (xs ++ ys) = (g.declare xs).declare ys := by
  unfold declare OrderedMap.insertEach
  rw [List.foldl_append, List.head?_append, Option.map_or, Option.or_assoc]

theorem ofBlocks_eq_declare (blocks : List Block) : ofBlocks blocks = declare {} blocks := rfl

end Grammar

namespace Table

variable (T : Table) (X : Symbol)

theorem addBodies_cons (body : Body) (more : List Body) :
    T.addBodies X (body :: more) = (T.addBodies X [body]).addBodies X more :=
  T.addBodies_append X [body] more

theorem addBodies_insert (bodies more : List Body) :
    addBodies (T.insert X bodies) X more = T.insert X (bodies ++ more) := by
  have hfind : bodies? (T.insert X bodies) X = some bodies := by
    rw [bodies?, OrderedMap.find?_insert, if_pos rfl]
  rw [addBodies, hfind]
  exact T.insert_insert X bodies _

end Table

namespace Block

/-! ## The next brace -/

theorem eq_of_dropWhile_eq_cons {a b : String} {l rest : List String}
    (h : l.dropWhile (· ≠ a) = b :: rest) : b = a := by
  have hhead := List.head?_dropWhile_not (· ≠ a) l
  rw [h] at hhead
  simpa using hhead

theorem notMem_takeWhile (a : String) (l : List String) : a ∉ l.takeWhile (· ≠ a) := by
  intro h
  have hall := List.all_takeWhile (l := l) (p := (· ≠ a))
  simpa using List.all_eq_true.1 hall a h

theorem forall_ne_of_notMem {a : String} {l : List String} (h : a ∉ l) :
    ∀ b ∈ l, decide (b ≠ a) = true := by
  intro b hb
  rw [decide_eq_true_iff]
  rintro rfl
  exact h hb

theorem takeWhile_append_cons {a : String} {l : List String} (h : a ∉ l) (rest : List String) :
    (l ++ a :: rest).takeWhile (· ≠ a) = l := by
  rw [List.takeWhile_append_of_pos (forall_ne_of_notMem h),
    List.takeWhile_cons_of_neg (p := (· ≠ a)) (by simp), List.append_nil]

theorem dropWhile_append_cons {a : String} {l : List String} (h : a ∉ l) (rest : List String) :
    (l ++ a :: rest).dropWhile (· ≠ a) = a :: rest := by
  rw [List.dropWhile_append_of_pos (forall_ne_of_notMem h),
    List.dropWhile_cons_of_neg (p := (· ≠ a)) (by simp)]

theorem readAll_of_notMem {tokens : List String} (h : Token.blockStart ∉ tokens) :
    readAll tokens = [] := by
  have hdrop : tokens.dropWhile (· ≠ Token.blockStart) = [] := by
    rw [← List.append_nil tokens, List.dropWhile_append_of_pos (forall_ne_of_notMem h)]
    rfl
  rw [readAll]
  split
  · rfl
  · rfl
  · next hcons =>
    rw [hdrop] at hcons
    cases hcons

/-- A closed block at the front is read first. -/
theorem readAll_block {head : String} {content : List String} (hhead : head ≠ Token.blockEnd)
    (hcontent : Token.blockEnd ∉ content) (rest : List String) :
    readAll (Token.blockStart :: head :: (content ++ Token.blockEnd :: rest)) =
      ofTokens head content :: readAll rest := by
  have hdrop (l : List String) :
      (Token.blockStart :: l).dropWhile (· ≠ Token.blockStart) = Token.blockStart :: l :=
    dropWhile_append_cons List.not_mem_nil l
  rw [readAll]
  split
  · next h => simp at h
  · next h => simp at h
  · next h =>
    rw [hdrop, List.cons.injEq, List.cons.injEq] at h
    obtain ⟨-, rfl, rfl⟩ := h
    rw [if_neg hhead, takeWhile_append_cons hcontent, dropWhile_append_cons hcontent]
    rfl

end Block

namespace Parser

variable {p q : Parser} {token : String}

/-- A parser between two blocks. -/
def resting (g : Grammar) : Parser := { table := g.table, start? := g.start? }

/-! ## Single tokens -/

theorem feed_cons_of_advance (h : p.advance token = .ok q) (tokens : List String) :
    p.feed (token :: tokens) = q.feed tokens := by
  rw [feed_cons, h]

theorem advance_outsideBlock (hmode : p.mode = .outsideBlock) (token : String) :
    p.advance token =
      .ok { p with mode := if token = Token.blockStart then .expectHead else .outsideBlock } := by
  rw [advance, hmode]
  rfl

theorem advance_expectHead (hmode : p.mode = .expectHead) (h : token ≠ Token.blockEnd) :
    p.advance token = .ok { p.openBlock ⟨token⟩ with mode := .accumulatingBody } := by
  rw [advance, hmode, step, if_neg h]
  rfl

theorem advance_blockEnd (hmode : p.mode ≠ .outsideBlock) :
    p.advance Token.blockEnd = .ok (resting p.grammar) := by
  rw [advance]
  cases h : p.mode with
  | outsideBlock => exact absurd h hmode
  | expectHead => rfl
  | accumulatingBody => rfl

theorem advance_bodyEnd (hmode : p.mode = .accumulatingBody) (h : p.missing? = none) :
    p.advance Token.bodyEnd = .ok (p.addBodies [p.body]).openBody := by
  rw [advance, hmode, step, if_neg (by decide), if_pos rfl, closeBody, h, ← hmode]
  rfl

theorem advance_push (hmode : p.mode = .accumulatingBody) (hend : token ≠ Token.blockEnd)
    (hbody : token ≠ Token.bodyEnd) : p.advance token = .ok (p.push token) := by
  rw [advance, hmode, step, if_neg hend, if_neg hbody, ← hmode]
  rfl

/-! ## Within a block -/

/-- The bodies that a content makes of what is pending: a piece for each semicolon, and the rest. -/
def pieces (pending : Body) (content : List String) : List Body :=
  ((content.splitOn Token.bodyEnd).map (·.map Symbol.ofToken)).modifyHead (pending ++ ·)

theorem pieces_empty (content : List String) :
    pieces [] content = (content.splitOn Token.bodyEnd).map (·.map Symbol.ofToken) := by
  have hid : (([] : Body) ++ ·) = id := funext List.nil_append
  rw [pieces, hid, List.modifyHead_id, id_eq]

theorem pieces_nil (pending : Body) : pieces pending [] = [pending] := by
  simp [pieces]

theorem pieces_bodyEnd (pending : Body) (content : List String) :
    pieces pending (Token.bodyEnd :: content) = pending :: pieces [] content := by
  rw [pieces, pieces_empty, List.splitOn_cons_eq_if_modifyHead, if_pos (by simp)]
  simp

theorem pieces_cons (pending : Body) (h : token ≠ Token.bodyEnd) (content : List String) :
    pieces pending (token :: content) = pieces (pending ++ [Symbol.ofToken token]) content := by
  rw [pieces, pieces, List.splitOn_cons_eq_if_modifyHead, if_neg (by simpa using h)]
  cases hsplit : content.splitOn Token.bodyEnd with
  | nil => exact absurd hsplit (List.splitOn_ne_nil _ _)
  | cons first others => simp

theorem pieces_ne_nil (pending : Body) (content : List String) : pieces pending content ≠ [] := by
  rw [pieces, ne_eq, List.modifyHead_eq_nil_iff, List.map_eq_nil_iff]
  exact List.splitOn_ne_nil _ _

/-- The tokens of a block's content give bodies to its head and leave the rest alone. -/
theorem feed_content {X : Symbol} {content : List String} (hmode : p.mode = .accumulatingBody)
    (hhead : p.head? = some X) (hentry : p.table.contains X = true)
    (hcontent : Token.blockEnd ∉ content) :
    ∃ q, p.feed content = (q, none) ∧ q.mode = .accumulatingBody ∧
      q.table = p.table.addBodies X (pieces p.body content).dropLast ∧ q.start? = p.start? := by
  induction content generalizing p with
  | nil =>
      refine ⟨p, feed_nil p, hmode, ?_, rfl⟩
      rw [pieces_nil, List.dropLast_singleton, Table.addBodies_nil]
  | cons token content ih =>
      rw [List.mem_cons, not_or] at hcontent
      obtain ⟨hend, hcontent⟩ := hcontent
      by_cases hbody : token = Token.bodyEnd
      · subst hbody
        have hmissing : p.missing? = none := by rw [missing?, hhead]; exact if_pos hentry
        have htable : (p.addBodies [p.body]).openBody.table = p.table.addBodies X [p.body] := by
          rw [openBody, addBodies, tableWith, hhead]
          rfl
        have hentry' : (p.addBodies [p.body]).openBody.table.contains X = true := by
          rw [htable, Table.contains_addBodies, hentry]
        rw [feed_cons_of_advance (advance_bodyEnd hmode hmissing)]
        obtain ⟨q, hfeed, hqmode, hqtable, hqstart⟩ :=
          ih (p := (p.addBodies [p.body]).openBody) hmode hhead hentry' hcontent
        refine ⟨q, hfeed, hqmode, ?_, hqstart⟩
        rw [hqtable, htable, pieces_bodyEnd, List.dropLast_cons_of_ne_nil (pieces_ne_nil _ _),
          Table.addBodies_cons p.table X p.body (pieces [] content).dropLast]
        rfl
      · rw [feed_cons_of_advance (advance_push hmode (Ne.symm hend) hbody)]
        obtain ⟨q, hfeed, hqmode, hqtable, hqstart⟩ :=
          ih (p := p.push token) hmode hhead hentry hcontent
        refine ⟨q, hfeed, hqmode, ?_, hqstart⟩
        rw [hqtable, pieces_cons _ hbody]
        simp [push, body]

/-! ## Block after block -/

variable (g : Grammar)

theorem feed_resting_dropWhile (tokens : List String) :
    (resting g).feed tokens = (resting g).feed (tokens.dropWhile (· ≠ Token.blockStart)) := by
  induction tokens with
  | nil => rfl
  | cons token tokens ih =>
      by_cases h : token = Token.blockStart
      · rw [List.dropWhile_cons_of_neg (by simpa using h)]
      · have hskip : (resting g).advance token = .ok (resting g) := by
          rw [advance_outsideBlock rfl, if_neg h]
          rfl
        rw [List.dropWhile_cons_of_pos (by simpa using h), feed_cons_of_advance hskip, ih]

theorem advance_blockStart :
    (resting g).advance Token.blockStart = .ok { resting g with mode := .expectHead } := by
  rw [advance_outsideBlock rfl, if_pos rfl]

theorem feed_emptyBlock (rest : List String) :
    (resting g).feed (Token.blockStart :: Token.blockEnd :: rest) = (resting g).feed rest := by
  rw [feed_cons_of_advance (advance_blockStart g),
    feed_cons_of_advance (advance_blockEnd (by simp))]
  rfl

theorem ofTokens_eq (head : String) (content : List String) :
    Block.ofTokens head content = (⟨head⟩, (pieces [] content).dropLast) := by
  rw [Block.ofTokens, pieces_empty, List.map_dropLast]

/-- A block's head and content declare the block. -/
theorem feed_openBlock {head : String} {content : List String} (hhead : head ≠ Token.blockEnd)
    (hcontent : Token.blockEnd ∉ content) :
    ∃ q, (resting g).feed (Token.blockStart :: head :: content) = (q, none) ∧
      q.mode = .accumulatingBody ∧ q.grammar = g.declare [Block.ofTokens head content] := by
  rw [feed_cons_of_advance (advance_blockStart g),
    feed_cons_of_advance (advance_expectHead rfl hhead)]
  let p : Parser := { (resting g).openBlock ⟨head⟩ with mode := .accumulatingBody }
  have hentry : p.table.contains ⟨head⟩ = true := by
    unfold OrderedMap.contains
    have hfind : p.table.find? ⟨head⟩ = some [] := by
      change (g.table.insert ⟨head⟩ []).find? ⟨head⟩ = some []
      rw [OrderedMap.find?_insert, if_pos rfl]
    rw [hfind]
    rfl
  obtain ⟨q, hfeed, hqmode, hqtable, hqstart⟩ := feed_content (p := p) rfl rfl hentry hcontent
  have htable : q.table = g.table.insert ⟨head⟩ (pieces [] content).dropLast := by
    rw [hqtable]
    exact Table.addBodies_insert g.table ⟨head⟩ [] _
  refine ⟨q, hfeed, hqmode, ?_⟩
  rw [grammar, htable, hqstart, ofTokens_eq]
  rfl

theorem feed_block {head : String} {content : List String} (hhead : head ≠ Token.blockEnd)
    (hcontent : Token.blockEnd ∉ content) (rest : List String) :
    (resting g).feed (Token.blockStart :: head :: (content ++ Token.blockEnd :: rest)) =
      (resting (g.declare [Block.ofTokens head content])).feed rest := by
  obtain ⟨q, hblock, hqmode, hq⟩ := feed_openBlock g hhead hcontent
  have hsplit : Token.blockStart :: head :: (content ++ Token.blockEnd :: rest) =
      (Token.blockStart :: head :: content) ++ Token.blockEnd :: rest := rfl
  rw [hsplit, feed_append, hblock]
  dsimp only
  rw [feed_cons_of_advance (advance_blockEnd (by simp [hqmode])), hq]

/-- A parser between two blocks reads the blocks of what follows. -/
theorem feed_resting (tokens : List String) :
    ∃ q, (resting g).feed tokens = (q, none) ∧ q.grammar = g.declare (Block.readAll tokens) := by
  fun_induction Block.readAll tokens generalizing g with
  | case1 tokens h =>
      refine ⟨resting g, ?_, (Grammar.declare_nil g).symm⟩
      rw [feed_resting_dropWhile, h, feed_nil]
  | case2 tokens start h =>
      refine ⟨{ resting g with mode := .expectHead }, ?_, (Grammar.declare_nil g).symm⟩
      obtain rfl := Block.eq_of_dropWhile_eq_cons h
      rw [feed_resting_dropWhile, h, feed_cons_of_advance (advance_blockStart g), feed_nil]
  | case3 tokens start rest h ih =>
      obtain rfl := Block.eq_of_dropWhile_eq_cons h
      rw [feed_resting_dropWhile, h, feed_emptyBlock]
      exact ih g
  | case4 tokens start head rest h hhead ih =>
      obtain rfl := Block.eq_of_dropWhile_eq_cons h
      rw [feed_resting_dropWhile, h]
      have hcontent := Block.notMem_takeWhile Token.blockEnd rest
      have hrest : rest.takeWhile (· ≠ Token.blockEnd) ++ rest.dropWhile (· ≠ Token.blockEnd) = rest :=
        List.takeWhile_append_dropWhile
      cases hafter : rest.dropWhile (· ≠ Token.blockEnd) with
      | nil =>
          -- the input ends within the block
          obtain ⟨q, hblock, -, hq⟩ := feed_openBlock g hhead hcontent
          rw [hafter, List.append_nil] at hrest
          refine ⟨q, ?_, ?_⟩
          · rw [hrest] at hblock
            exact hblock
          · rw [hq]
            simp [Block.readAll]
      | cons close after =>
          obtain rfl := Block.eq_of_dropWhile_eq_cons hafter
          have hblock := feed_block g hhead hcontent after
          rw [hafter] at hrest ih
          rw [hrest] at hblock
          obtain ⟨q, hq, hqgrammar⟩ := ih (g.declare [Block.ofTokens head _])
          refine ⟨q, hblock.trans hq, ?_⟩
          rw [hqgrammar, ← Grammar.declare_append]
          rfl

/-- A new parser reads all tokens. -/
theorem feed_new (tokens : List String) : (feed {} tokens).2 = none := by
  obtain ⟨q, hfeed, -⟩ := feed_resting {} tokens
  exact congrArg Prod.snd hfeed

end Parser

namespace Grammar

/-- The token-at-a-time parser declares the blocks of its tokens. -/
theorem ofTokens_eq_ofBlocks (tokens : List String) :
    ofTokens tokens = ofBlocks (Block.readAll tokens) := by
  obtain ⟨p, hfeed, hp⟩ := Parser.feed_resting {} tokens
  change (Parser.feed (Parser.resting {}) tokens).1.grammar = _
  rw [hfeed, hp, ofBlocks_eq_declare]

theorem ofSource_eq_ofBlocks (text : String) :
    ofSource text = ofBlocks (Block.readAll (Token.split text)) :=
  ofTokens_eq_ofBlocks (Token.split text)

/-- Reading a text never fails.  The heads stand in the order of their first blocks, each has the
bodies of its last block, and the start symbol is the head of the first block. -/
theorem ofSource_reads_blocks (text : String) :
    (Parser.feed {} (Token.split text)).2 = none ∧
      (ofSource text).table.heads =
        ((Block.readAll (Token.split text)).map Prod.fst).eraseDups ∧
      (∀ X, (ofSource text).table.bodies? X =
        (Block.readAll (Token.split text)).reverse.lookup X) ∧
      (ofSource text).start? = (Block.readAll (Token.split text)).head?.map Prod.fst := by
  have hsource : ofSource text = ofBlocks (Block.readAll (Token.split text)) :=
    ofTokens_eq_ofBlocks _
  refine ⟨?_, ?_, fun X => ?_, ?_⟩
  · exact Parser.feed_new (Token.split text)
  · rw [hsource]
    exact OrderedMap.keys_ofList _
  · rw [hsource]
    exact OrderedMap.find?_ofList _ X
  · rw [hsource]
    rfl

end Grammar

end BraceGrammar
