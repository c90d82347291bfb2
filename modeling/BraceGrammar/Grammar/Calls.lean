import BraceGrammar.Grammar.Parser

/-!
# Calls on a parser

A parser is called to read one token in a mode that the caller chooses, or tokens one after the other.
When a call fails, the failure may be caught and the parser used on.

What a failing call leaves behind depends on the order in which things are done.  So calls are given
here as actions on a parser, of which each does one thing, and what was done before a failure stays
done.  `IsFed` holds of the parsers that have only been fed, and `IsUsed` of those that have been called
in whatever way.
-/

namespace BraceGrammar

/-- The mode that comes after a token. -/
def Mode.next : Mode → String → Mode
  | .outsideBlock, token => if token = Token.blockStart then .expectHead else .outsideBlock
  | .expectHead, token | .accumulatingBody, token =>
    if token = Token.blockEnd then .outsideBlock else .accumulatingBody

namespace Parser

/-- The heads that tokens declare when they are read from a mode on. -/
def declared : Mode → List String → List Symbol
  | _, [] => []
  | mode, token :: tokens =>
    if mode = .expectHead ∧ token ≠ Token.blockEnd then
      ⟨token⟩ :: declared (mode.next token) tokens
    else declared (mode.next token) tokens

/-! ## Actions -/

/-- Things done to a parser one after the other, up to the first that fails. -/
abbrev Action := ExceptT MissingEntry (StateM Parser)

namespace Action

/-- What comes of an action on a parser, and the parser that it leaves. -/
def on {α : Type} (a : Action α) (p : Parser) : Except MissingEntry α × Parser :=
  Id.run (StateT.run (ExceptT.run a) p)

def setHead (head? : Option Symbol) : Action Unit := modify fun p => { p with head? }

/-- The head has an entry without bodies. -/
def declare (X : Symbol) : Action Unit := modify fun p => { p with table := p.table.insert X [] }

/-- The first start symbol stays. -/
def startFrom (X : Symbol) : Action Unit :=
  modify fun p => { p with start? := p.start?.or (some X) }

def clearBody : Action Unit := modify fun p => { p with reversedBody := [] }

def extendBody (s : Symbol) : Action Unit :=
  modify fun p => { p with reversedBody := s :: p.reversedBody }

/-- Looks up the bodies of the pending head and gives it one more, which is the pending one. -/
def storeBody : Action Unit := do
  let p ← get
  match p.head? with
  | none => throw ⟨none⟩
  | some X =>
    match p.table.bodies? X with
    | none => throw ⟨some X⟩
    | some bodies => set { p with table := p.table.insert X (bodies ++ [p.body]) }

/-- Reads a token in a mode and says which mode comes next. -/
def step (mode : Mode) (token : String) : Action Mode := do
  if mode = .outsideBlock then
    return if token = Token.blockStart then .expectHead else .outsideBlock
  if token = Token.blockEnd then
    setHead none
    clearBody
    return .outsideBlock
  if mode = .expectHead then
    setHead (some ⟨token⟩)
    declare ⟨token⟩
    startFrom ⟨token⟩
    return .accumulatingBody
  if token = Token.bodyEnd then
    storeBody
    clearBody
  else
    extendBody (.ofToken token)
  return .accumulatingBody

/-- Reads tokens, each in the mode that the parser is in. -/
def feed : List String → Action Unit
  | [] => pure ()
  | token :: tokens => do
    let p ← get
    let mode ← step p.mode token
    modify fun p => { p with mode }
    feed tokens

end Action

/-! ## Calls -/

inductive Call
  /-- Reads a token in a mode.  The mode that comes next is only answered. -/
  | step (mode : Mode) (token : String)
  | feed (tokens : List String)

def Call.action : Call → Action Unit
  | .step mode token => do let _ ← Action.step mode token
  | .feed tokens => Action.feed tokens

/-- What calls leave, whether they fail or not. -/
def after (p : Parser) (calls : List Call) : Parser :=
  calls.foldl (fun p call => (call.action.on p).2) p

/-- New parsers, and those that come of them by calls. -/
def IsUsed (p : Parser) : Prop := ∃ calls, after {} calls = p

/-- New parsers, and those that come of them by feeding tokens, any number of times. -/
inductive IsFed : Parser → Prop
  | new : IsFed {}
  | feed {p : Parser} (others : IsFed p) (tokens : List String) : IsFed (p.feed tokens).1

end Parser

end BraceGrammar
