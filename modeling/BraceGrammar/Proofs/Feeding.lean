import BraceGrammar.Grammar.Calls
import BraceGrammar.Proofs.OrderedMap

/-!
# What a parser keeps

`Reads` says what one token makes of a parser in a mode, with a case for each thing that a token can
be.  In whatever mode it is read, a token leaves the start symbol the first head and the pending head
one of the heads (`IsCoherent`), and the heads stay where they are with a new one behind them
(`Grows`).

A parser that is only fed keeps more, because its own mode says what is pending (`IsOrderly`): then
nothing is ever missing, so no token fails.
-/

namespace BraceGrammar

/-! ## Heads and bodies of a table -/

namespace Table

variable (T : Table) (X Y : Symbol)

theorem heads_addBodies (more : List Body) : (T.addBodies X more).heads = T.heads := by
  unfold addBodies
  split
  · rfl
  · next bodies h =>
    have hX : X ∈ T.keys := (T.mem_keys_iff X).2 (Option.isSome_of_eq_some h)
    rw [heads, OrderedMap.keys_insert, if_pos hX]

theorem bodies?_addBodies_of_ne {T : Table} {X Y : Symbol} (h : Y ≠ X) (more : List Body) :
    (T.addBodies X more).bodies? Y = T.bodies? Y := by
  unfold addBodies
  split
  · rfl
  · rw [bodies?, OrderedMap.find?_insert, if_neg h]

/-- A body after some have been added was there before or is one of them. -/
theorem exists_of_bodies?_addBodies {T : Table} {X Y : Symbol} {more bodies : List Body}
    (h : (T.addBodies X more).bodies? Y = some bodies) {body : Body} (hbody : body ∈ bodies) :
    (∃ others, T.bodies? Y = some others ∧ body ∈ others) ∨ body ∈ more := by
  unfold addBodies at h
  split at h
  · exact .inl ⟨bodies, h, hbody⟩
  · next old hold =>
    rw [bodies?, OrderedMap.find?_insert] at h
    split at h
    · next hY =>
      obtain rfl := Option.some.inj h
      rcases List.mem_append.1 hbody with hbody | hbody
      · exact .inl ⟨old, hY ▸ hold, hbody⟩
      · exact .inr hbody
    · exact .inl ⟨bodies, h, hbody⟩

end Table

/-- Symbols that a token of a body can stand for. -/
def Symbol.IsContent (s : Symbol) : Prop :=
  s.text ≠ Token.bodyEnd ∧ s.text ≠ Token.blockEnd ∧ s.text ≠ newlineToken

theorem Symbol.isContent_ofToken {token : String} (hend : token ≠ Token.blockEnd)
    (hbody : token ≠ Token.bodyEnd) : (ofToken token).IsContent := by
  unfold ofToken
  split
  · exact ⟨by decide, by decide, by decide⟩
  · next h => exact ⟨hbody, hend, h⟩

namespace Parser

/-! ## One token -/

/-- What a token makes of a parser when it is read in a mode: the next mode and the parser. -/
inductive Reads (p : Parser) : Mode → String → Mode → Parser → Prop
  | blockStart : Reads p .outsideBlock Token.blockStart .expectHead p
  | skip {token : String} (h : token ≠ Token.blockStart) :
      Reads p .outsideBlock token .outsideBlock p
  | blockEnd {mode : Mode} (h : mode ≠ .outsideBlock) :
      Reads p mode Token.blockEnd .outsideBlock p.closeBlock
  | head {token : String} (h : token ≠ Token.blockEnd) :
      Reads p .expectHead token .accumulatingBody (p.openBlock ⟨token⟩)
  | bodyEnd {X : Symbol} (hhead : p.head? = some X) (hentry : X ∈ p.table.heads) :
      Reads p .accumulatingBody Token.bodyEnd .accumulatingBody (p.addBodies [p.body]).openBody
  | symbol {token : String} (hend : token ≠ Token.blockEnd) (hbody : token ≠ Token.bodyEnd) :
      Reads p .accumulatingBody token .accumulatingBody (p.push token)

variable {p q r : Parser} {mode next : Mode} {token : String} {e : MissingEntry}

theorem missing?_eq_none_iff : p.missing? = none ↔ ∃ X ∈ p.table.heads, p.head? = some X := by
  unfold missing?
  cases p.head? with
  | none => simp
  | some X =>
      have hmem : X ∈ p.table.heads ↔ p.table.contains X = true := p.table.mem_keys_iff X
      simp [hmem]

/-- Only a semicolon can fail, when it closes a body for which there is no head. -/
theorem step_eq_error_iff : p.step mode token = .error e ↔
    mode = .accumulatingBody ∧ token = Token.bodyEnd ∧ p.missing? = some e := by
  cases mode with
  | outsideBlock => simp [step]
  | expectHead =>
      rw [step]
      split <;> simp
  | accumulatingBody =>
      rw [step]
      split
      · next hend => simp [hend, Token.blockEnd, Token.bodyEnd]
      · split
        · next hbody =>
          unfold closeBody
          cases p.missing? <;> simp [Except.map, hbody]
        · next hbody => simp [hbody]

theorem reads_of_step (h : p.step mode token = .ok (next, q)) : p.Reads mode token next q := by
  cases mode with
  | outsideBlock =>
      obtain ⟨rfl, rfl⟩ := Prod.mk.inj (Except.ok.inj h)
      split
      · next hstart => exact hstart ▸ .blockStart
      · next hstart => exact .skip hstart
  | expectHead =>
      rw [step] at h
      split at h
      · next hend =>
        obtain ⟨rfl, rfl⟩ := Prod.mk.inj (Except.ok.inj h)
        exact hend ▸ .blockEnd (by simp)
      · next hend =>
        obtain ⟨rfl, rfl⟩ := Prod.mk.inj (Except.ok.inj h)
        exact .head hend
  | accumulatingBody =>
      rw [step] at h
      split at h
      · next hend =>
        obtain ⟨rfl, rfl⟩ := Prod.mk.inj (Except.ok.inj h)
        exact hend ▸ .blockEnd (by simp)
      · next hend =>
        split at h
        · next hbody =>
          unfold closeBody at h
          cases hmissing : p.missing? with
          | some e => simp [hmissing, Except.map] at h
          | none =>
              rw [hmissing] at h
              obtain ⟨rfl, rfl⟩ := Prod.mk.inj (Except.ok.inj h)
              obtain ⟨X, hentry, hhead⟩ := missing?_eq_none_iff.1 hmissing
              exact hbody ▸ .bodyEnd hhead hentry
        · next hbody =>
          obtain ⟨rfl, rfl⟩ := Prod.mk.inj (Except.ok.inj h)
          exact .symbol hend hbody

theorem Reads.next_eq (h : p.Reads mode token next q) : next = mode.next token := by
  cases h with
  | blockStart => rfl
  | skip h => exact (if_neg h).symm
  | blockEnd h => cases mode <;> simp_all [Mode.next]
  | head h => exact (if_neg h).symm
  | bodyEnd => rfl
  | symbol hend hbody => exact (if_neg hend).symm

/-! ## Any modes -/

/-- What holds of a parser in whatever modes it has read. -/
structure IsCoherent (p : Parser) : Prop where
  start?_eq : p.start? = p.table.heads.head?
  head_mem : ∀ X ∈ p.head?, X ∈ p.table.heads

/-- A start symbol stays, and so do the heads in their order, with others behind them. -/
structure Grows (p q : Parser) : Prop where
  start? : ∀ S ∈ p.start?, q.start? = some S
  heads : p.table.heads <+: q.table.heads

theorem Grows.refl (p : Parser) : p.Grows p := ⟨fun _ hS => hS, List.prefix_refl _⟩

theorem Grows.trans (h : p.Grows q) (h' : q.Grows r) : p.Grows r :=
  ⟨fun S hS => h'.start? S (h.start? S hS), h.heads.trans h'.heads⟩

theorem IsCoherent.start?_eq_none_iff (h : p.IsCoherent) :
    p.start? = none ↔ p.table.heads = [] := by
  rw [h.start?_eq, List.head?_eq_none_iff]

theorem heads_openBlock (X : Symbol) : (p.openBlock X).table.heads =
    if X ∈ p.table.heads then p.table.heads else p.table.heads ++ [X] :=
  OrderedMap.keys_insert p.table X []

theorem mem_heads_openBlock {X Y : Symbol} :
    Y ∈ (p.openBlock X).table.heads ↔ Y ∈ p.table.heads ∨ Y = X := by
  rw [heads_openBlock]
  split
  · next hX => exact ⟨.inl, fun hY => hY.elim id fun hY => hY ▸ hX⟩
  · rw [List.mem_append, List.mem_singleton]

/-- A head that is declared has no bodies, and the others have those that they had. -/
theorem bodies?_of_openBlock {X Y : Symbol} {bodies : List Body} {body : Body}
    (h : (p.openBlock X).table.bodies? Y = some bodies) (hbody : body ∈ bodies) :
    p.table.bodies? Y = some bodies := by
  rw [openBlock, Table.bodies?, OrderedMap.find?_insert] at h
  split at h
  · obtain rfl := Option.some.inj h
    cases hbody
  · exact h

theorem heads_addBodies (reversed : List Body) :
    (p.addBodies reversed).table.heads = p.table.heads := by
  rw [addBodies, tableWith]
  cases p.head? with
  | none => rfl
  | some X => exact p.table.heads_addBodies X reversed.reverse

theorem Reads.grows (h : p.Reads mode token next q) : p.Grows q := by
  cases h with
  | blockStart | skip | blockEnd | symbol => exact ⟨fun _ hS => hS, List.prefix_refl _⟩
  | head =>
      refine ⟨fun S hS => ?_, ?_⟩
      · rw [openBlock, hS]
        rfl
      · rw [heads_openBlock]
        split
        · exact List.prefix_refl _
        · exact List.prefix_append _ _
  | bodyEnd =>
      have hheads : (p.addBodies [p.body]).openBody.table.heads = p.table.heads := heads_addBodies _
      exact ⟨fun _ hS => hS, hheads ▸ List.prefix_refl _⟩

theorem Reads.isCoherent (h : p.Reads mode token next q) (hp : p.IsCoherent) : q.IsCoherent := by
  cases h with
  | blockStart | skip | symbol => exact ⟨hp.start?_eq, hp.head_mem⟩
  | blockEnd => exact ⟨hp.start?_eq, by simp [closeBlock]⟩
  | head =>
      refine ⟨?_, ?_⟩
      · rw [heads_openBlock, openBlock, hp.start?_eq]
        split
        · next hmem =>
          obtain ⟨S, others, heq⟩ := List.exists_cons_of_ne_nil (List.ne_nil_of_mem hmem)
          rw [heq]
          rfl
        · rw [List.head?_append]
          rfl
      · rintro X ⟨⟩
        exact mem_heads_openBlock.2 (.inr rfl)
  | bodyEnd =>
      have hheads : (p.addBodies [p.body]).openBody.table.heads = p.table.heads := heads_addBodies _
      exact ⟨by rw [hheads]; exact hp.start?_eq, by rw [hheads]; exact hp.head_mem⟩

/-- A token leaves the bodies of a head alone that is not pending and that it does not declare. -/
theorem Reads.bodies?_eq {Y : Symbol} (h : p.Reads mode token next q) (hhead : p.head? ≠ some Y)
    (hnew : mode = .expectHead → token ≠ Token.blockEnd → Y ≠ ⟨token⟩) :
    q.table.bodies? Y = p.table.bodies? Y ∧ q.head? ≠ some Y := by
  cases h with
  | blockStart | skip | symbol => exact ⟨rfl, hhead⟩
  | blockEnd => exact ⟨rfl, by simp [closeBlock]⟩
  | head hend =>
      have hne : Y ≠ ⟨token⟩ := hnew rfl hend
      refine ⟨?_, fun hY => hne (Option.some.inj hY).symm⟩
      rw [openBlock, Table.bodies?, OrderedMap.find?_insert, if_neg hne]
  | @bodyEnd X hX _ =>
      have hne : Y ≠ X := fun hY => hhead (hY ▸ hX)
      refine ⟨?_, hhead⟩
      rw [openBody, addBodies, tableWith, hX]
      exact Table.bodies?_addBodies_of_ne hne _

/-! ## One token after the other -/

theorem exists_reads_of_advance (h : p.advance token = .ok q) :
    ∃ r, p.Reads p.mode token (p.mode.next token) r ∧ q = { r with mode := p.mode.next token } := by
  unfold advance at h
  cases hstep : p.step p.mode token with
  | error e => simp [hstep, Except.map] at h
  | ok answer =>
      obtain ⟨next, r⟩ := answer
      have hreads := reads_of_step hstep
      obtain rfl := hreads.next_eq
      rw [hstep] at h
      exact ⟨r, hreads, (Except.ok.inj h).symm⟩

theorem advance_eq_error_iff : p.advance token = .error e ↔ p.step p.mode token = .error e := by
  unfold advance
  cases p.step p.mode token <;> simp [Except.map]

theorem grows_of_advance (h : p.advance token = .ok q) : p.Grows q := by
  obtain ⟨r, hreads, rfl⟩ := exists_reads_of_advance h
  exact ⟨hreads.grows.start?, hreads.grows.heads⟩

theorem IsCoherent.of_advance (hp : p.IsCoherent) (h : p.advance token = .ok q) : q.IsCoherent := by
  obtain ⟨r, hreads, rfl⟩ := exists_reads_of_advance h
  have hr := hreads.isCoherent hp
  exact ⟨hr.start?_eq, hr.head_mem⟩

/-- What each token keeps is kept by feeding tokens, also if one of them fails. -/
theorem feed_keeps {motive : Parser → Prop}
    (advance : ∀ p q token, p.advance token = .ok q → motive p → motive q) (hp : motive p)
    (tokens : List String) : motive (p.feed tokens).1 := by
  induction tokens generalizing p with
  | nil => rwa [feed_nil]
  | cons token tokens ih =>
      rw [feed_cons]
      cases hadvance : p.advance token with
      | ok q => exact ih (advance p q token hadvance hp)
      | error e => exact hp

theorem grows_feed (p : Parser) (tokens : List String) : p.Grows (p.feed tokens).1 :=
  feed_keeps (motive := p.Grows) (fun _ _ _ h hq => hq.trans (grows_of_advance h)) (.refl p) tokens

theorem IsCoherent.feed (hp : p.IsCoherent) (tokens : List String) :
    (p.feed tokens).1.IsCoherent :=
  feed_keeps (fun _ _ _ h hq => hq.of_advance h) hp tokens

theorem mem_declared_cons {Y : Symbol} {tokens : List String} :
    Y ∈ declared mode (token :: tokens) ↔
      (mode = .expectHead ∧ token ≠ Token.blockEnd ∧ Y = ⟨token⟩) ∨
        Y ∈ declared (mode.next token) tokens := by
  rw [declared]
  split
  · next h => simp [h.1, h.2]
  · next h =>
    refine ⟨.inr, fun hY => hY.resolve_left ?_⟩
    rintro ⟨hmode, hend, -⟩
    exact h ⟨hmode, hend⟩

/-- Tokens leave the bodies of a head alone that is not pending at first and that they do not
declare. -/
theorem bodies?_feed {Y : Symbol} {tokens : List String} (hhead : p.head? ≠ some Y)
    (hnew : Y ∉ declared p.mode tokens) : (p.feed tokens).1.table.bodies? Y = p.table.bodies? Y := by
  induction tokens generalizing p with
  | nil => rw [feed_nil]
  | cons token tokens ih =>
      rw [mem_declared_cons, not_or] at hnew
      obtain ⟨hother, hnew⟩ := hnew
      rw [feed_cons]
      cases hadvance : p.advance token with
      | error e => rfl
      | ok q =>
          obtain ⟨r, hreads, rfl⟩ := exists_reads_of_advance hadvance
          obtain ⟨hbodies, hhead'⟩ := hreads.bodies?_eq hhead
            fun hmode hend hY => hother ⟨hmode, hend, hY⟩
          exact (ih (p := { r with mode := p.mode.next token }) hhead' hnew).trans hbodies

/-! ## The parser's own mode -/

/-- What holds of a parser that has read in its own mode only. -/
structure IsOrderly (p : Parser) : Prop extends p.IsCoherent where
  nothing_pending : p.mode ≠ .accumulatingBody → p.head? = none ∧ p.body = []
  exists_head : p.mode = .accumulatingBody → ∃ X ∈ p.table.heads, p.head? = some X
  head_ne : ∀ X ∈ p.table.heads, X.text ≠ Token.blockEnd
  isContent : ∀ X bodies, p.table.bodies? X = some bodies →
    ∀ body ∈ bodies, ∀ s ∈ body, s.IsContent
  isContent_body : ∀ s ∈ p.body, s.IsContent

theorem isOrderly_new : IsOrderly {} where
  start?_eq := rfl
  head_mem := by simp
  nothing_pending _ := ⟨rfl, rfl⟩
  exists_head h := by cases h
  head_ne X h := by cases h
  isContent X bodies h := by cases h
  isContent_body := by simp [body]

theorem Reads.isOrderly (h : p.Reads mode token next q) (hmode : p.mode = mode)
    (hp : p.IsOrderly) : IsOrderly { q with mode := next } := by
  obtain ⟨hstart, hmem⟩ := h.isCoherent hp.toIsCoherent
  have hcoherent : IsCoherent { q with mode := next } := ⟨hstart, hmem⟩
  cases h with
  | blockStart | skip =>
      have hnothing := hp.nothing_pending (by simp [hmode])
      exact ⟨hcoherent, fun _ => hnothing, by simp, hp.head_ne, hp.isContent, hp.isContent_body⟩
  | blockEnd =>
      exact ⟨hcoherent, fun _ => ⟨rfl, rfl⟩, by simp, hp.head_ne, hp.isContent, by simp [body, closeBlock]⟩
  | head hend =>
      refine ⟨hcoherent, by simp, fun _ => ⟨_, hmem _ rfl, rfl⟩, fun X hX => ?_, ?_, hp.isContent_body⟩
      · rcases mem_heads_openBlock.1 hX with hX | rfl
        · exact hp.head_ne X hX
        · exact hend
      · intro X bodies hfind body hbody
        exact hp.isContent X bodies (bodies?_of_openBlock hfind hbody) body hbody
  | @bodyEnd X hX hentry =>
      have hheads : (p.addBodies [p.body]).table.heads = p.table.heads := heads_addBodies _
      refine ⟨hcoherent, by simp, fun _ => ⟨X, hheads ▸ hentry, hX⟩, fun Y hY => ?_, ?_, ?_⟩
      · exact hp.head_ne Y (hheads ▸ hY)
      · intro Y bodies hfind body hbody
        change (p.addBodies [p.body]).table.bodies? Y = some bodies at hfind
        rw [addBodies, tableWith, hX] at hfind
        rcases Table.exists_of_bodies?_addBodies hfind hbody with ⟨others, hothers, hold⟩ | hnew
        · exact hp.isContent Y others hothers body hold
        · simp only [List.reverse_singleton, List.mem_singleton] at hnew
          exact hnew ▸ hp.isContent_body
      · simp [body, openBody]
  | symbol hend hbody =>
      obtain ⟨X, hentry, hX⟩ := hp.exists_head hmode
      refine ⟨hcoherent, by simp, fun _ => ⟨X, hentry, hX⟩, hp.head_ne, hp.isContent, ?_⟩
      intro s hs
      rw [body, push, List.reverse_cons, List.mem_append, List.mem_singleton] at hs
      rcases hs with hs | rfl
      · exact hp.isContent_body s hs
      · exact Symbol.isContent_ofToken hend hbody

/-- In its own mode an orderly parser reads every token. -/
theorem IsOrderly.exists_advance (hp : p.IsOrderly) (token : String) :
    ∃ q, p.advance token = .ok q ∧ q.IsOrderly := by
  cases hadvance : p.advance token with
  | ok q =>
      obtain ⟨r, hreads, rfl⟩ := exists_reads_of_advance hadvance
      exact ⟨_, rfl, hreads.isOrderly rfl hp⟩
  | error e =>
      obtain ⟨hmode, -, hmissing⟩ := step_eq_error_iff.1 (advance_eq_error_iff.1 hadvance)
      rw [missing?_eq_none_iff.2 (hp.exists_head hmode)] at hmissing
      cases hmissing

theorem IsOrderly.feed (hp : p.IsOrderly) (tokens : List String) :
    (p.feed tokens).2 = none ∧ (p.feed tokens).1.IsOrderly := by
  induction tokens generalizing p with
  | nil =>
      rw [feed_nil]
      exact ⟨rfl, hp⟩
  | cons token tokens ih =>
      obtain ⟨q, hadvance, hq⟩ := hp.exists_advance token
      rw [feed_cons, hadvance]
      exact ih hq

theorem IsFed.isOrderly (h : p.IsFed) : p.IsOrderly := by
  induction h with
  | new => exact isOrderly_new
  | feed _ tokens ih => exact (ih.feed tokens).2

/-- A parser that has been fed, any number of times and whatever tokens, has nothing pending outside
of a block and one of the heads within it.  Its start symbol is the first head, if there is one; no
head closes a block, and no symbol of a body closes a block or a body or is the token for a new line.
Further tokens never fail.  They keep the start symbol, keep the heads in their order with new ones
behind them, and keep the bodies of each head that is not pending and that they do not declare. -/
theorem IsFed.stays_orderly (h : p.IsFed) :
    p.IsOrderly ∧ (p.start? = none ↔ p.table.heads = []) ∧
      ∀ tokens, (p.feed tokens).2 = none ∧ p.Grows (p.feed tokens).1 ∧
        ∀ X ∈ p.table.heads, p.head? ≠ some X → X ∉ declared p.mode tokens →
          (p.feed tokens).1.table.bodies? X = p.table.bodies? X := by
  have horderly := h.isOrderly
  refine ⟨horderly, horderly.start?_eq_none_iff, fun tokens => ⟨(horderly.feed tokens).1,
    grows_feed p tokens, fun X _ hhead hnew => bodies?_feed hhead hnew⟩⟩

/-- Fed up to the middle of its second block. -/
def withinT : Parser := (feed {} ["\x7b", "<S>", "a", ";", "\x7d", "\x7b", "<T>", "b"]).1

theorem stays_orderly_withinT :
    withinT.IsFed ∧ withinT.IsOrderly ∧
    (withinT.feed [";", "\x7d", "\x7b", "<U>"]).2 = none ∧
    ⟨"<S>"⟩ ∈ withinT.table.heads ∧ withinT.head? ≠ some ⟨"<S>"⟩ ∧
    ⟨"<S>"⟩ ∉ declared withinT.mode [";", "\x7d", "\x7b", "<U>"] ∧
    (withinT.feed [";", "\x7d", "\x7b", "<U>"]).1.table.bodies? ⟨"<S>"⟩ = some [[⟨"a"⟩]] := by
  have hfed : withinT.IsFed := .feed .new _
  have hmem : ⟨"<S>"⟩ ∈ withinT.table.heads := by decide
  have hhead : withinT.head? ≠ some ⟨"<S>"⟩ := by decide
  have hnew : ⟨"<S>"⟩ ∉ declared withinT.mode [";", "\x7d", "\x7b", "<U>"] := by decide
  obtain ⟨horderly, -, hmore⟩ := hfed.stays_orderly
  obtain ⟨hnone, -, hbodies⟩ := hmore [";", "\x7d", "\x7b", "<U>"]
  exact ⟨hfed, horderly, hnone, hmem, hhead, hnew, hbodies _ hmem hhead hnew⟩

end Parser

end BraceGrammar
