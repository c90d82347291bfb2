import BraceGrammar.Derivation

/-!
# Streams of sentences

A stream yields sentences derived from one symbol, one at a time, until it has yielded its number of
them or a derivation fails.  Table and source are not part of a stream: several streams may draw on
one source, and each sentence comes from the table as it is when the sentence is asked for.
-/

namespace BraceGrammar

/-- What a stream still has to do. -/
structure SentenceStream where
  start : Symbol
  limit : Option Int
  remaining : Nat
deriving DecidableEq, Inhabited

namespace SentenceStream

/-- Why there is no stream. -/
inductive Refusal
  | lack (cause : Grammar.Lack)
  /-- The count is too big for a display of progress. -/
  | count
deriving DecidableEq

/-- The greatest count that progress can be displayed for. -/
def maxDisplayed : Int := 0x7fffffffffffffff

/-- A stream of so many sentences from a grammar's start symbol, of none if the count is negative.
The display of progress is no part of a stream, but must be able to count its sentences. -/
def ofGrammar (g : Grammar) (count : Int) (limit : Option Int) (displayed : Bool) :
    Except Refusal SentenceStream :=
  match g.requireStart with
  | .error cause => .error (.lack cause)
  | .ok start =>
    if displayed && maxDisplayed < count then .error .count
    else .ok ⟨start, limit, count.toNat⟩

inductive Item
  | sentence (text : String)
  | failure (cause : Derivation.Failure)
  | over
deriving DecidableEq

/-- A stream that is over. -/
def stopped (s : SentenceStream) : SentenceStream := { s with remaining := 0 }

variable {σ : Type} (T : Table) (ask : Nat → σ → Int × σ) (fuel : Nat)

/-- Asks for one sentence.  After a failure the stream is over. -/
def next (s : SentenceStream) (source : σ) : Option (Item × SentenceStream × σ) :=
  match s.remaining with
  | 0 => some (.over, s, source)
  | remaining + 1 =>
    (Derivation.generate T s.limit ask fuel (some s.start) source).map fun (result, source) =>
      match result with
      | .ok text => (.sentence text, { s with remaining }, source)
      | .error cause => (.failure cause, s.stopped, source)

/-- The sentences that a stream yields until it is over or fails, at most so many, after those given
in reverse. -/
def takeFrom (before : List String) :
    Nat → SentenceStream → σ → Option (List String × Option Derivation.Failure × σ)
  | 0, _, source => some (before.reverse, none, source)
  | n + 1, s, source =>
    match next T ask fuel s source with
    | none => none
    | some (.over, _, source) => some (before.reverse, none, source)
    | some (.failure cause, _, source) => some (before.reverse, some cause, source)
    | some (.sentence text, s, source) => takeFrom (text :: before) n s source

/-- All sentences that a stream yields, with the failure that ended it if there was one. -/
def toList (s : SentenceStream) (source : σ) :
    Option (List String × Option Derivation.Failure × σ) :=
  takeFrom T ask fuel [] s.remaining s source

end SentenceStream

end BraceGrammar
