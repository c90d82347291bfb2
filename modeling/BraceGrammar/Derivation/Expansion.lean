import BraceGrammar.Derivation

/-!
# Expansion by recursion

The meaning of a derivation without a list of pending symbols: expanding a bracketed symbol chooses
a body and expands the symbols of that body one after the other, from left to right, each from the
number of expansions and the state of the source that the one before it has left.  The first failure
is the failure of the whole.
-/

namespace BraceGrammar

namespace Derivation

variable {σ : Type}

/-- Expands the symbols of a body from left to right, given how to expand one. -/
def expandEach (expandOne : Symbol → Nat → σ → Option (Ending σ)) :
    Body → Nat → σ → Option (Ending σ)
  | [], expansions, source => some ⟨.ok [], expansions, source⟩
  | X :: rest, expansions, source =>
    match expandOne X expansions source with
    | none => none
    | some ⟨.error failure, expansions, source⟩ => some ⟨.error failure, expansions, source⟩
    | some ⟨.ok words, expansions, source⟩ =>
      (expandEach expandOne rest expansions source).map fun e =>
        { e with result := e.result.map (words ++ ·) }

/-- Expands one symbol down to a depth. -/
def expandWithin (T : Table) (limit : Option Int) (ask : Nat → σ → Int × σ) :
    Nat → Symbol → Nat → σ → Option (Ending σ)
  | 0, _, _, _ => none
  | depth + 1, X, expansions, source =>
    if X.isPlain then some ⟨.ok [X.text], expansions, source⟩
    else
      match T.bodies? X with
      | none => some ⟨.error (.undefined X), expansions, source⟩
      | some bodies =>
        match exceeded? limit (expansions + 1) with
        | some bound => some ⟨.error (.limit bound), expansions + 1, source⟩
        | none =>
          if bodies = [] then some ⟨.ok [], expansions + 1, source⟩
          else
            let (index, source) := ask bodies.length source
            match bodyAt? bodies index with
            | none => some ⟨.error (.outOfRange index bodies.length), expansions + 1, source⟩
            | some body =>
              expandEach (expandWithin T limit ask depth) body (expansions + 1) source

theorem expandEach_nil (expandOne : Symbol → Nat → σ → Option (Ending σ)) (n : Nat) (s : σ) :
    expandEach expandOne [] n s = some ⟨.ok [], n, s⟩ := rfl

end Derivation

end BraceGrammar
