import BraceGrammar.Grammar
import BraceGrammar.Token

/-!
# Parsing, token by token

A block opens with a brace, its next token is a head, and the tokens after the head are bodies, each
closed by a semicolon.  The first head ever is the start symbol, a head that is declared again loses
the bodies it had, and a body that is still open when its block closes is dropped.

`Parser.step` takes the mode to work in and returns the next one, so that a caller may run a parser
in any mode; `Parser.advance` is a step in the parser's own mode.  `Parser.feed` reads many tokens.
It puts the bodies of a block into the table all at once, and comes to the same as one `advance` for
each token (`feed_cons`).
-/

namespace BraceGrammar

/-- Where a parser stands in a text. -/
inductive Mode
  /-- Tokens are skipped up to the next block. -/
  | outsideBlock
  /-- The next token is a head. -/
  | expectHead
  /-- Tokens belong to bodies of the pending head. -/
  | accumulatingBody
deriving DecidableEq, Inhabited

/-- What has been read: the table, the start symbol, and the head and body that are pending. -/
structure Parser where
  mode : Mode := .outsideBlock
  table : Table := ∅
  start? : Option Symbol := none
  head? : Option Symbol := none
  /-- The symbols of the pending body, the latest first. -/
  reversedBody : List Symbol := []
deriving Inhabited

namespace Parser

variable (p : Parser)

/-- Declares a head afresh. -/
def openBlock (X : Symbol) : Parser :=
  { p with table := p.table.insert X [], start? := p.start?.or (some X), head? := some X }

def closeBlock : Parser := { p with head? := none, reversedBody := [] }

def body : Body := p.reversedBody.reverse

/-- Nothing of the next body has been read. -/
def openBody : Parser := { p with reversedBody := [] }

/-- The table with bodies, given in reverse, added to those of the pending head. -/
def tableWith (reversed : List Body) : Table :=
  match p.head? with
  | none => p.table
  | some X => p.table.addBodies X reversed.reverse

/-- Adds bodies, given in reverse, to those of the pending head. -/
def addBodies (reversed : List Body) : Parser := { p with table := p.tableWith reversed }

/-- What is missing for a body to be given to the pending head. -/
def missing? : Option MissingEntry :=
  match p.head? with
  | none => some ⟨none⟩
  | some X => if p.table.contains X then none else some ⟨some X⟩

/-- Gives the pending body to the pending head. -/
def closeBody : Except MissingEntry Parser :=
  match p.missing? with
  | some e => .error e
  | none => .ok (p.addBodies [p.body]).openBody

def push (token : String) : Parser :=
  { p with reversedBody := Symbol.ofToken token :: p.reversedBody }

/-- Reads one token in a given mode, and says which mode comes next.  The mode that the parser
itself holds plays no part and stays. -/
def step : Mode → String → Except MissingEntry (Mode × Parser)
  | .outsideBlock, token =>
    .ok (if token = Token.blockStart then .expectHead else .outsideBlock, p)
  | .expectHead, token =>
    if token = Token.blockEnd then .ok (.outsideBlock, p.closeBlock)
    else .ok (.accumulatingBody, p.openBlock ⟨token⟩)
  | .accumulatingBody, token =>
    if token = Token.blockEnd then .ok (.outsideBlock, p.closeBlock)
    else if token = Token.bodyEnd then p.closeBody.map fun q => (.accumulatingBody, q)
    else .ok (.accumulatingBody, p.push token)

/-- Reads one token in the parser's own mode. -/
def advance (token : String) : Except MissingEntry Parser :=
  (p.step p.mode token).map fun (mode, q) => { q with mode }

/-- Reads tokens up to the first that cannot be read; those before it stay read.  The bodies given
in reverse have been read for the pending head, and are not in the table yet. -/
def feedAfter (p : Parser) (reversed : List Body) : List String → Parser × Option MissingEntry
  | [] => (p.addBodies reversed, none)
  | token :: tokens =>
    if p.mode = .accumulatingBody ∧ token ≠ Token.blockEnd ∧
        (token = Token.bodyEnd → p.missing? = none) then
      if token = Token.bodyEnd then p.openBody.feedAfter (p.body :: reversed) tokens
      else (p.push token).feedAfter reversed tokens
    else
      match (p.addBodies reversed).advance token with
      | .ok q => q.feedAfter [] tokens
      | .error e => (p.addBodies reversed, some e)

/-- Reads tokens up to the first that cannot be read; those before it stay read. -/
def feed (tokens : List String) : Parser × Option MissingEntry := p.feedAfter [] tokens

/-! ### One token after the other -/

theorem addBodies_nil : p.addBodies [] = p := by
  obtain ⟨mode, T, start?, head?, body⟩ := p
  cases head? with
  | none => rfl
  | some X => simp [addBodies, tableWith, Table.addBodies_nil]

theorem addBodies_cons (b : Body) (reversed : List Body) :
    p.addBodies (b :: reversed) = (p.addBodies reversed).addBodies [b] := by
  obtain ⟨mode, T, start?, head?, body⟩ := p
  cases head? with
  | none => rfl
  | some X => simp [addBodies, tableWith, Table.addBodies_append]

theorem missing?_addBodies (reversed : List Body) :
    (p.addBodies reversed).missing? = p.missing? := by
  obtain ⟨mode, T, start?, head?, body⟩ := p
  cases head? with
  | none => rfl
  | some X => simp [addBodies, tableWith, missing?, Table.contains_addBodies]

theorem feedAfter_eq_feed (reversed : List Body) (tokens : List String) :
    p.feedAfter reversed tokens = (p.addBodies reversed).feed tokens := by
  unfold feed
  induction tokens generalizing p reversed with
  | nil => rw [feedAfter, feedAfter, addBodies_nil]
  | cons token tokens ih =>
    rw [feedAfter, feedAfter, missing?_addBodies, addBodies_nil]
    by_cases h : p.mode = .accumulatingBody ∧ token ≠ Token.blockEnd ∧
        (token = Token.bodyEnd → p.missing? = none)
    · rw [if_pos h, if_pos (show (p.addBodies reversed).mode = _ ∧ _ from h)]
      split
      · rw [ih, ih (p.addBodies reversed).openBody]
        change (p.addBodies (p.body :: reversed)).openBody.feedAfter [] tokens = _
        rw [addBodies_cons]
        rfl
      · rw [ih, ih ((p.addBodies reversed).push token), addBodies_nil]
        rfl
    · rw [if_neg h, if_neg (show ¬((p.addBodies reversed).mode = _ ∧ _) from h)]

theorem feed_nil : p.feed [] = (p, none) := by
  rw [feed, feedAfter, addBodies_nil]

theorem feed_cons (token : String) (tokens : List String) :
    p.feed (token :: tokens) =
      match p.advance token with
      | .ok q => q.feed tokens
      | .error e => (p, some e) := by
  rw [feed, feedAfter, addBodies_nil]
  split
  · next h =>
    obtain ⟨hmode, hend, hmissing⟩ := h
    by_cases hbody : token = Token.bodyEnd
    · simp only [hbody, if_true, feedAfter_eq_feed, advance, step, hmode, closeBody,
        hmissing hbody]
      rw [if_neg (hbody ▸ hend), ← hmode]
      rfl
    · simp only [hbody, if_false, feedAfter_eq_feed, advance, step, hmode, hend, addBodies_nil]
      rw [← hmode]
      rfl
  · rfl

theorem feed_append (xs ys : List String) :
    p.feed (xs ++ ys) =
      match p.feed xs with
      | (q, none) => q.feed ys
      | (q, some e) => (q, some e) := by
  induction xs generalizing p with
  | nil => rw [List.nil_append, feed_nil]
  | cons x xs ih =>
      simp only [List.cons_append, feed_cons]
      cases p.advance x with
      | ok q => exact ih q
      | error e => rfl

def grammar : Grammar := ⟨p.table, p.start?⟩

end Parser

/-- The grammar that a list of tokens declares. -/
def Grammar.ofTokens (tokens : List String) : Grammar := (Parser.feed {} tokens).1.grammar

/-- The grammar that a text declares. -/
def Grammar.ofSource (text : String) : Grammar := .ofTokens (Token.split text)

end BraceGrammar
