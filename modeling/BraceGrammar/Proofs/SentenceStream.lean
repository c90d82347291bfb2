import BraceGrammar.Proofs.Run
import BraceGrammar.SentenceStream

/-!
# Derivations in sequence and streams

`generateEach` is one derivation after the other on one source.  More fuel changes nothing
(`generateEach_of_le`), and a sequence can be taken apart at its first derivation
(`generateEach_succ_iff`) or at its last (`generateEach_concat_iff`).

Asking a stream that is not at its end for a sentence is one derivation (`next_eq_map_generate`), so
the sentences of a stream are those of a sequence, up to its count or its first failure.  That is
why a stream of fewer sentences from the same source yields the first ones of a longer stream
(`exists_toList_of_le`).
-/

namespace BraceGrammar

variable {σ : Type} {T : Table} {limit : Option Int} {ask : Nat → σ → Int × σ}
  {start? : Option Symbol} {source mid rest : σ} {fuel fuel' n : Nat}

/-! ## Sequences of derivations -/

namespace Derivation

variable {result : Except Failure String} {results : List (Except Failure String)}

theorem run_of_le (hle : fuel ≤ fuel') {s : State σ} {e : Ending σ}
    (h : run T limit ask fuel s = some e) : run T limit ask fuel' s = some e := by
  induction hle with
  | refl => exact h
  | step _ ih => exact run_succ_of_run T limit ask ih

theorem generate_of_le (hle : fuel ≤ fuel')
    (h : generate T limit ask fuel start? source = some (result, rest)) :
    generate T limit ask fuel' start? source = some (result, rest) := by
  cases start? with
  | none => exact h
  | some S =>
      obtain ⟨e, he, hanswer⟩ := Option.map_eq_some_iff.1 h
      exact Option.map_eq_some_iff.2 ⟨e, run_of_le hle he, hanswer⟩

/-- A derivation has one result only, whatever the fuel. -/
theorem generate_unique {result' : Except Failure String} {rest' : σ}
    (h : generate T limit ask fuel start? source = some (result, rest))
    (h' : generate T limit ask fuel' start? source = some (result', rest')) :
    result = result' ∧ rest = rest' := by
  have hmore := generate_of_le (Nat.le_max_left fuel fuel') h
  rw [generate_of_le (Nat.le_max_right fuel fuel') h'] at hmore
  obtain ⟨rfl, rfl⟩ := Prod.mk.inj (Option.some.inj hmore)
  exact ⟨rfl, rfl⟩

/-- A sequence begins with one derivation. -/
theorem generateEach_succ_iff :
    generateEach T limit ask fuel start? (n + 1) source = some (results, rest) ↔
      ∃ result others mid, generate T limit ask fuel start? source = some (result, mid) ∧
        generateEach T limit ask fuel start? n mid = some (others, rest) ∧
        results = result :: others := by
  rw [generateEach]
  constructor
  · intro h
    obtain ⟨⟨result, mid⟩, hfirst, h⟩ := Option.bind_eq_some_iff.1 h
    obtain ⟨⟨others, rest'⟩, hothers, h⟩ := Option.bind_eq_some_iff.1 h
    obtain ⟨rfl, rfl⟩ := Prod.mk.inj (Option.some.inj h)
    exact ⟨result, others, mid, hfirst, hothers, rfl⟩
  · rintro ⟨result, others, mid, hfirst, hothers, rfl⟩
    simp [hfirst, hothers]

theorem length_of_generateEach
    (h : generateEach T limit ask fuel start? n source = some (results, rest)) :
    results.length = n := by
  induction n generalizing source results with
  | zero =>
      obtain ⟨rfl, -⟩ := Prod.mk.inj (Option.some.inj h)
      rfl
  | succ n ih =>
      obtain ⟨result, others, mid, -, hothers, rfl⟩ := generateEach_succ_iff.1 h
      rw [List.length_cons, ih hothers]

theorem generateEach_of_le (hle : fuel ≤ fuel')
    (h : generateEach T limit ask fuel start? n source = some (results, rest)) :
    generateEach T limit ask fuel' start? n source = some (results, rest) := by
  induction n generalizing source results with
  | zero => exact h
  | succ n ih =>
      obtain ⟨result, others, mid, hfirst, hothers, rfl⟩ := generateEach_succ_iff.1 h
      exact generateEach_succ_iff.2
        ⟨result, others, mid, generate_of_le hle hfirst, ih hothers, rfl⟩

/-- A sequence ends with one derivation. -/
theorem generateEach_concat_iff :
    generateEach T limit ask fuel start? (n + 1) source = some (results ++ [result], rest) ↔
      ∃ mid, generateEach T limit ask fuel start? n source = some (results, mid) ∧
        generate T limit ask fuel start? mid = some (result, rest) := by
  induction n generalizing source results with
  | zero =>
      rw [generateEach_succ_iff]
      constructor
      · rintro ⟨first, others, mid, hfirst, hothers, hresults⟩
        obtain ⟨rfl, rfl⟩ := Prod.mk.inj (Option.some.inj hothers)
        obtain ⟨rfl, rfl⟩ : results = [] ∧ result = first := by
          cases results with
          | nil => exact ⟨rfl, (List.cons.inj hresults).1⟩
          | cons => simp at hresults
        exact ⟨source, rfl, hfirst⟩
      · rintro ⟨mid, hnone, hlast⟩
        obtain ⟨rfl, rfl⟩ := Prod.mk.inj (Option.some.inj hnone)
        exact ⟨result, [], rest, hlast, rfl, rfl⟩
  | succ n ih =>
      rw [generateEach_succ_iff]
      constructor
      · rintro ⟨first, others, mid, hfirst, hothers, hresults⟩
        have hlength := length_of_generateEach hothers
        obtain _ | ⟨first', results⟩ := results
        · obtain ⟨-, rfl⟩ := List.cons.inj hresults
          cases hlength
        · obtain ⟨rfl, rfl⟩ := List.cons.inj hresults
          obtain ⟨mid', hmiddle, hlast⟩ := ih.1 hothers
          exact ⟨mid', generateEach_succ_iff.2 ⟨_, _, mid, hfirst, hmiddle, rfl⟩, hlast⟩
      · rintro ⟨mid, hbefore, hlast⟩
        obtain ⟨first, others, mid', hfirst, hothers, rfl⟩ := generateEach_succ_iff.1 hbefore
        exact ⟨first, others ++ [result], mid', hfirst, ih.2 ⟨mid, hothers, hlast⟩, rfl⟩

end Derivation

/-! ## Streams -/

namespace SentenceStream

open BraceGrammar.Derivation

variable {g : Grammar} {s t : SentenceStream} {count : Int} {displayed : Bool}

/-- What a stream yields for the result of a derivation. -/
def Item.ofResult : Except Failure String → Item
  | .ok text => .sentence text
  | .error cause => .failure cause

/-- What is left of a stream after the result of a derivation. -/
def after (s : SentenceStream) : Except Failure String → SentenceStream
  | .ok _ => { s with remaining := s.remaining - 1 }
  | .error _ => s.stopped

/-- There is a stream when there is a start symbol, and progress can be displayed if it is to be. -/
theorem ofGrammar_eq_ok_iff : ofGrammar g count limit displayed = .ok s ↔
    ∃ S, g.start? = some S ∧ (displayed = true → count ≤ maxDisplayed) ∧
      s = ⟨S, limit, count.toNat⟩ := by
  unfold ofGrammar Grammar.requireStart
  cases g.start? with
  | none => simp
  | some S =>
      have hshown : (displayed && decide (maxDisplayed < count)) = false ↔
          (displayed = true → count ≤ maxDisplayed) := by
        cases displayed <;> simp
      rw [← hshown]
      cases displayed && decide (maxDisplayed < count) <;> simp [eq_comm]

/-- With a start symbol, a stream is refused only because of its count. -/
theorem eq_count_of_ofGrammar {S : Symbol} {refusal : Refusal} (hstart : g.start? = some S)
    (h : ofGrammar g count limit displayed = .error refusal) : refusal = .count := by
  simp only [ofGrammar, Grammar.requireStart, hstart] at h
  split at h
  · exact (Except.error.inj h).symm
  · cases h

variable (T ask fuel) in
theorem next_of_remaining_eq_zero (h : s.remaining = 0) (source : σ) :
    s.next T ask fuel source = some (.over, s, source) := by
  rw [next, h]

variable (T ask fuel) in
/-- A stream that is not at its end asks for one derivation. -/
theorem next_eq_map_generate (h : s.remaining ≠ 0) (source : σ) :
    s.next T ask fuel source = (generate T s.limit ask fuel (some s.start) source).map
      fun (result, rest) => (.ofResult result, s.after result, rest) := by
  obtain ⟨S, limit, remaining⟩ := s
  obtain _ | remaining := remaining
  · exact absurd rfl h
  · simp only [next]
    congr 1
    funext ⟨result, rest⟩
    cases result <;> rfl

/-! ## All sentences of a stream -/

variable {S : Symbol} {k : Nat} {texts : List String} {failure? : Option Failure}

theorem takeFrom_eq_map (before : List String) (n : Nat) (s : SentenceStream) (source : σ) :
    takeFrom T ask fuel before n s source = (takeFrom T ask fuel [] n s source).map
      fun (texts, ending) => (before.reverse ++ texts, ending) := by
  induction n generalizing before s source with
  | zero => simp [takeFrom]
  | succ n ih =>
      rw [takeFrom, takeFrom]
      cases s.next T ask fuel source with
      | none => rfl
      | some asked =>
          obtain ⟨text | cause | _, s', mid⟩ := asked
          · dsimp only
            rw [ih (text :: before), ih [text], Option.map_map]
            simp [Function.comp_def]
          · simp
          · simp

theorem toList_succ (n : Nat) (source : σ) :
    toList T ask fuel ⟨S, limit, n + 1⟩ source =
      match generate T limit ask fuel (some S) source with
      | none => none
      | some (.ok text, mid) => (toList T ask fuel ⟨S, limit, n⟩ mid).map
          fun (texts, ending) => (text :: texts, ending)
      | some (.error cause, mid) => some ([], some cause, mid) := by
  rw [toList, takeFrom, next_eq_map_generate T ask fuel (Nat.succ_ne_zero n)]
  obtain _ | ⟨text | cause, mid⟩ := generate T limit ask fuel (some S) source
  · rfl
  · rfl
  · exact takeFrom_eq_map [_] n _ mid

/-- A stream of fewer sentences yields the first ones of a stream of more.  It fails only if the
longer one fails before it has yielded so many. -/
theorem exists_toList_of_le (hle : k ≤ n)
    (h : toList T ask fuel ⟨S, limit, n⟩ source = some (texts, failure?, rest)) :
    ∃ rest', toList T ask fuel ⟨S, limit, k⟩ source =
      some (texts.take k, if k ≤ texts.length then none else failure?, rest') := by
  induction k generalizing n source texts with
  | zero => exact ⟨source, rfl⟩
  | succ k ih =>
      obtain _ | n := n
      · omega
      · rw [toList_succ] at h ⊢
        split at h
        · cases h
        · next text mid hfirst =>
          obtain ⟨⟨others, ending⟩, hothers, hall⟩ := Option.map_eq_some_iff.1 h
          obtain ⟨rfl, rfl⟩ := Prod.mk.inj hall
          obtain ⟨rest', hfewer⟩ := ih (Nat.le_of_succ_le_succ hle) hothers
          refine ⟨rest', ?_⟩
          rw [hfewer]
          simp
        · next cause mid hfirst =>
          obtain ⟨rfl, rfl, rfl⟩ := Option.some.inj h
          exact ⟨_, rfl⟩

end SentenceStream

end BraceGrammar
