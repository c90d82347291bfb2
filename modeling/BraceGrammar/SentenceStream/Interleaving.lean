import BraceGrammar.SentenceStream

/-!
# Streams that share a source

Any number of streams from one grammar may draw on one source.  They are made and asked for
sentences in any order, which is an `Interleaving`; every stream goes by the number of streams that
were made before it.

For one stream an interleaving is a list of items (`itemsOf`).  `Course` says which lists a stream
of so many sentences can yield, `left` how many sentences it still has to yield after a list.
-/

namespace BraceGrammar

namespace SentenceStream

/-- What happens at one time. -/
inductive Call
  /-- A stream of so many sentences is made. -/
  | made (count : Int)
  /-- The stream of a number is asked for a sentence, and yields an item. -/
  | yielded (number : Nat) (item : Item)

/-- Calls one after the other, with the streams and the source that they leave. -/
inductive Interleaving {σ : Type} (g : Grammar) (limit : Option Int) (ask : Nat → σ → Int × σ)
    (source : σ) : List Call → List SentenceStream → σ → Prop
  | start : Interleaving g limit ask source [] [] source
  | make {calls : List Call} {streams : List SentenceStream} {rest : σ} {s : SentenceStream}
      {count : Int} {displayed : Bool} (before : Interleaving g limit ask source calls streams rest)
      (made : ofGrammar g count limit displayed = .ok s) :
      Interleaving g limit ask source (calls ++ [.made count]) (streams ++ [s]) rest
  | next {calls : List Call} {streams : List SentenceStream} {rest rest' : σ}
      {s s' : SentenceStream} {number fuel : Nat} {item : Item}
      (before : Interleaving g limit ask source calls streams rest)
      (found : streams[number]? = some s)
      (asked : s.next g.table ask fuel rest = some (item, s', rest')) :
      Interleaving g limit ask source (calls ++ [.yielded number item]) (streams.set number s')
        rest'

/-! ## What calls come to -/

/-- The result of a derivation that an item comes from. -/
def Item.result? : Item → Option (Except Derivation.Failure String)
  | .sentence text => some (.ok text)
  | .failure cause => some (.error cause)
  | .over => none

/-- The counts that streams were made for, by their numbers. -/
def countsOf (calls : List Call) : List Int :=
  calls.filterMap fun
    | .made count => some count
    | .yielded .. => none

/-- The items of one stream. -/
def itemsOf (number : Nat) (calls : List Call) : List Item :=
  calls.filterMap fun
    | .made _ => none
    | .yielded i item => if i = number then some item else none

/-- The results of derivations that all streams have yielded, in the order of the calls. -/
def resultsOf (calls : List Call) : List (Except Derivation.Failure String) :=
  calls.filterMap fun
    | .made _ => none
    | .yielded _ item => item.result?

/-! ## Single streams -/

/-- The items of a stream of so many sentences.  Unless it fails it yields a sentence for each call
until there are as many as it was made for, and is over then.  After a failure, which is one of the
results, it is over too. -/
inductive Course (count : Int) : List Item → Prop
  | unfailing {texts : List String} {n : Nat} (upTo : texts.length ≤ count.toNat)
      (enough : n ≠ 0 → texts.length = count.toNat) :
      Course count (texts.map .sentence ++ List.replicate n .over)
  | failing {texts : List String} {cause : Derivation.Failure} {n : Nat}
      (fewer : texts.length < count.toNat) :
      Course count (texts.map .sentence ++ .failure cause :: List.replicate n .over)

def Item.isFailure : Item → Bool
  | .failure _ => true
  | _ => false

/-- How many sentences a stream of so many has still to yield after some items. -/
def left (count : Int) (items : List Item) : Nat :=
  if items.any Item.isFailure then 0 else count.toNat - items.length

end SentenceStream

end BraceGrammar
