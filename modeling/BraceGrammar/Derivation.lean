import BraceGrammar.Grammar

/-!
# Leftmost derivations

A derivation keeps the symbols that are still to be rewritten, the leftmost one first.  A plain
symbol becomes a word of the sentence.  A bracketed symbol is replaced by one of its bodies, chosen
by a source that is asked with the number of bodies; a head without bodies vanishes and the source
is not asked.

Sources are arbitrary: `ask n s` is the answer to the question with `n` bodies when the source is in
state `s`, together with the source's next state, and an answer that is no index of a body ends the
derivation.  So does an expansion beyond the limit, if there is one.  Nothing bounds a derivation
without a limit, which is why `run` is given fuel.
-/

namespace BraceGrammar

namespace Derivation

/-- Why a derivation stops short of a sentence. -/
inductive Failure
  /-- A bracketed symbol has no entry. -/
  | undefined (X : Symbol)
  /-- One expansion more than the limit allows. -/
  | limit (bound : Int)
  /-- The source's answer is not an index of one of the bodies. -/
  | outOfRange (index : Int) (count : Nat)
deriving DecidableEq

/-- Numbers are written with all their digits.  An interpreter may refuse to write more than
`Text.maxDigits` of them, as it refuses to read them, and so a limit that was read from a text can
be written. -/
def Failure.message : Failure → String
  | .undefined X => "undefined non-terminal: " ++ X.text
  | .limit bound => "derivation did not finish within " ++ toString bound ++ " expansions"
  | .outOfRange index count =>
    "random source returned " ++ toString index ++ ", expected an index in [0, " ++
      toString count ++ ")"

/-- A sentence has a blank after each of its words. -/
def sentence (words : List String) : String := String.join (words.map (· ++ " "))

def bodyAt? (bodies : List Body) (index : Int) : Option Body :=
  if 0 ≤ index then bodies[index.toNat]? else none

/-- The limit, when a number of expansions is beyond it. -/
def exceeded? (limit : Option Int) (expansions : Nat) : Option Int :=
  limit.filter fun bound => bound < expansions

structure State (σ : Type) where
  /-- Symbols to rewrite, the leftmost first. -/
  pending : List Symbol
  /-- Words so far, the latest first. -/
  words : List String := []
  expansions : Nat := 0
  source : σ

structure Ending (σ : Type) where
  /-- The words in order, or what went wrong. -/
  result : Except Failure (List String)
  /-- Expansions counted, the failing one included. -/
  expansions : Nat
  /-- The state in which the source is left. -/
  source : σ

inductive Progress (σ : Type)
  | running (s : State σ)
  | ended (e : Ending σ)

variable {σ : Type}

section Steps

variable (T : Table) (limit : Option Int) (ask : Nat → σ → Int × σ)

/-- Replaces the bracketed symbol `X` in front of the pending symbols of `s`. -/
def expand (X : Symbol) (s : State σ) : Progress σ :=
  match T.bodies? X with
  | none => .ended ⟨.error (.undefined X), s.expansions, s.source⟩
  | some bodies =>
    let expansions := s.expansions + 1
    match exceeded? limit expansions with
    | some bound => .ended ⟨.error (.limit bound), expansions, s.source⟩
    | none =>
      if bodies = [] then .running { s with expansions }
      else
        let (index, source) := ask bodies.length s.source
        match bodyAt? bodies index with
        | none => .ended ⟨.error (.outOfRange index bodies.length), expansions, source⟩
        | some body => .running { s with pending := body ++ s.pending, expansions, source }

/-- Takes the leftmost pending symbol. -/
def step (s : State σ) : Progress σ :=
  match s.pending with
  | [] => .ended ⟨.ok s.words.reverse, s.expansions, s.source⟩
  | X :: pending =>
    if X.isPlain then .running { s with pending, words := X.text :: s.words }
    else expand T limit ask X { s with pending }

/-- Steps up to the end, if the fuel lasts.  More fuel makes no difference then
(`run_succ_of_run`). -/
def run : Nat → State σ → Option (Ending σ)
  | 0, _ => none
  | fuel + 1, s =>
    match step T limit ask s with
    | .running s => run fuel s
    | .ended e => some e

theorem run_succ_of_run {fuel : Nat} {s : State σ} {e : Ending σ}
    (h : run T limit ask fuel s = some e) : run T limit ask (fuel + 1) s = some e := by
  induction fuel generalizing s with
  | zero => simp [run] at h
  | succ fuel ih =>
      unfold run at h ⊢
      split
      · next s' hs =>
        rw [hs] at h
        exact ih h
      · next e' hs =>
        rw [hs] at h
        exact h

/-- The derivation from a symbol; with no symbol to start from, the empty sentence at once. -/
def derive (fuel : Nat) (start? : Option Symbol) (source : σ) : Option (Ending σ) :=
  match start? with
  | none => some ⟨.ok [], 0, source⟩
  | some S => run T limit ask fuel { pending := [S], source }

/-- The sentence derived from a symbol, and the state in which the source is left. -/
def generate (fuel : Nat) (start? : Option Symbol) (source : σ) :
    Option (Except Failure String × σ) :=
  (derive T limit ask fuel start? source).map fun e => (e.result.map sentence, e.source)

/-- So many derivations one after the other, of which none is stopped by the failure of another. -/
def generateEach (fuel : Nat) (start? : Option Symbol) :
    Nat → σ → Option (List (Except Failure String) × σ)
  | 0, source => some ([], source)
  | n + 1, source => do
    let (result, source) ← generate T limit ask fuel start? source
    let (results, source) ← generateEach fuel start? n source
    return (result :: results, source)

end Steps

/-- A source that also keeps what it was asked, the latest question first. -/
def recording (ask : Nat → σ → Int × σ) : Nat → σ × List Nat → Int × (σ × List Nat) :=
  fun count s => ((ask count s.1).1, (ask count s.1).2, count :: s.2)

end Derivation

end BraceGrammar
