import BraceGrammar.Choice.Twister

/-!
# Sources of choices

Choices come from a seeded generator, from a list of answers whose last one is repeated for ever, or
from one answer given always.  Only the generator minds the number of bodies it is asked with.
-/

namespace BraceGrammar

namespace Choice

inductive Source
  | seeded (generator : Twister)
  /-- The answers still to give, and the one that comes after them. -/
  | sequence (answers : List Int) (last : Int)
  | constant (answer : Int)
deriving Inhabited

inductive Fault
  /-- Nothing lies under the bound. -/
  | emptyRange
  /-- A sequence needs an answer to repeat. -/
  | noAnswer
deriving DecidableEq

def Fault.message : Fault → String
  | .emptyRange => "empty range for randrange()"
  | .noAnswer => "sequence_source needs at least one index"

namespace Source

def ofSeed (seed : Int) : Source := .seeded (.ofSeed seed)

/-- The answers of a list, in order. -/
def ofList (answers : List Int) : Except Fault Source :=
  match answers.getLast? with
  | none => .error .noAnswer
  | some last => .ok (.sequence answers last)

inductive Recipe
  | seed (number : Int)
  | list (answers : List Int)
  | constant (answer : Int)

def Recipe.make : Recipe → Except Fault Source
  | .seed number => .ok (ofSeed number)
  | .list answers => ofList answers
  | .constant answer => .ok (.constant answer)

/-- The answer to a question with a number of bodies.  Where the generator would never come to an
answer, the first body stands for it. -/
def ask (count : Nat) : Source → Int × Source
  | .seeded generator =>
    match generator.below? count with
    | some (index, generator) => (index, .seeded generator)
    | none => (0, .seeded generator)
  | .sequence [] last => (last, .sequence [] last)
  | .sequence (answer :: answers) last => (answer, .sequence answers last)
  | .constant answer => (answer, .constant answer)

/-- The answer to a question with any bound.  The generator refuses bounds that nothing lies under,
and is left as it was. -/
def draw (bound : Int) (source : Source) : Except Fault Int × Source :=
  match source with
  | .seeded _ =>
    if bound ≤ 0 then (.error .emptyRange, source)
    else
      let (index, source) := source.ask bound.toNat
      (.ok index, source)
  | _ =>
    let (index, source) := source.ask bound.toNat
    (.ok index, source)

def drawEach : List Int → Source → List (Except Fault Int)
  | [], _ => []
  | bound :: bounds, source =>
    let (drawn, source) := source.draw bound
    drawn :: drawEach bounds source

end Source

end Choice

end BraceGrammar
