import BraceGrammar.Proofs.Run

/-!
# Expansions and questions

A symbol takes no expansion or one, whatever the limit (`replace_cases`), and a source that is asked
at all is asked once for an expansion, with a number of bodies.  So along a run the expansions are
counted up, and the questions that a source has kept grow with them (`Ends.asks`).

`EndsAfter` says how a derivation ends and which questions there were.  It speaks of the source as it
is: keeping the questions changes nothing else (`derive_recording`).
-/

namespace BraceGrammar

namespace Derivation

variable {σ : Type} {T : Table} {limit : Option Int} {ask : Nat → σ → Int × σ}

/-! ## Expansions -/

def Replacement.expansions : Replacement σ → Nat
  | .becomes _ _ n _ => n
  | .fails _ n _ => n

def Replacement.source : Replacement σ → σ
  | .becomes _ _ _ source => source
  | .fails _ _ source => source

section Replace

variable {X : Symbol} {n : Nat} {source : σ}

/-- A symbol that is no expansion is the same under every limit.  One that is an expansion is also
the same, unless the limit is exceeded. -/
theorem replace_cases (T : Table) (ask : Nat → σ → Int × σ) (X : Symbol) (n : Nat) (source : σ) :
    ((replace T none ask X n source).expansions = n ∧
      ∀ limit, replace T limit ask X n source = replace T none ask X n source) ∨
    ((replace T none ask X n source).expansions = n + 1 ∧
      ∀ limit, replace T limit ask X n source =
        match exceeded? limit (n + 1) with
        | none => replace T none ask X n source
        | some bound => .fails (.limit bound) (n + 1) source) := by
  unfold replace
  by_cases hplain : X.isPlain = true
  · left
    simp [hplain, Replacement.expansions]
  · cases hfind : T.bodies? X with
    | none =>
        left
        simp [hplain, Replacement.expansions]
    | some bodies =>
        right
        have hnone : exceeded? none (n + 1) = none := rfl
        simp only [hplain, hnone]
        refine ⟨?_, fun limit => ?_⟩
        · by_cases hbodies : bodies = []
          · simp [hbodies, Replacement.expansions]
          · cases hbody : bodyAt? bodies (ask bodies.length source).1 <;>
              simp [hbodies, Replacement.expansions]
        · cases exceeded? limit (n + 1) <;> rfl

theorem le_expansions_replace (limit : Option Int) :
    n ≤ (replace T limit ask X n source).expansions := by
  rcases replace_cases T ask X n source with ⟨hexpansions, hsame⟩ | ⟨hexpansions, hcounted⟩
  · rw [hsame]
    exact Nat.le_of_eq hexpansions.symm
  · have hle : n ≤ (replace T none ask X n source).expansions := by omega
    rw [hcounted]
    cases exceeded? limit (n + 1) with
    | none => exact hle
    | some bound => exact Nat.le_succ n

end Replace

def Progress.expansions : Progress σ → Nat
  | .running s => s.expansions
  | .ended e => e.expansions

def Progress.source : Progress σ → σ
  | .running s => s.source
  | .ended e => e.source

theorem expansions_step_cons (X : Symbol) (pending : List Symbol) (words : List String) (n : Nat)
    (source : σ) : (step T limit ask ⟨X :: pending, words, n, source⟩).expansions =
      (replace T limit ask X n source).expansions := by
  rw [step_cons]
  cases replace T limit ask X n source <;> rfl

section Steps

variable {s : State σ} {e : Ending σ}

theorem le_expansions_step (s : State σ) : s.expansions ≤ (step T limit ask s).expansions := by
  obtain ⟨pending, words, n, source⟩ := s
  cases pending with
  | nil => exact Nat.le_refl n
  | cons X pending =>
      rw [expansions_step_cons]
      exact le_expansions_replace limit

theorem Ends.expansions_step_le (h : Ends T limit ask s e) :
    (step T limit ask s).expansions ≤ e.expansions := by
  induction h with
  | last only =>
      rw [only]
      exact Nat.le_refl _
  | next first _ ih =>
      rw [first]
      exact Nat.le_trans (le_expansions_step _) ih

end Steps

/-! ## Questions -/

/-- Between two states of a source that keeps its questions, with the numbers of expansions counted
by then, there are questions for numbers of bodies, and no more of them than expansions. -/
def Asks (T : Table) (n : Nat) (source : σ × List Nat) (n' : Nat) (source' : σ × List Nat) : Prop :=
  ∃ counts, source'.2 = counts ++ source.2 ∧ counts.length + n ≤ n' ∧
    ∀ count ∈ counts, count ≠ 0 ∧ ∃ X bodies, T.bodies? X = some bodies ∧ count = bodies.length

section Questions

variable {n n' n'' : Nat} {source source' source'' : σ × List Nat}

theorem Asks.of_le (h : n ≤ n') (source : σ × List Nat) : Asks T n source n' source :=
  ⟨[], rfl, by simpa using h, by simp⟩

theorem Asks.trans (h : Asks T n source n' source') (h' : Asks T n' source' n'' source'') :
    Asks T n source n'' source'' := by
  obtain ⟨xs, hxs, hlength, hcounts⟩ := h
  obtain ⟨ys, hys, hlength', hcounts'⟩ := h'
  refine ⟨ys ++ xs, by rw [hys, hxs, List.append_assoc], ?_, ?_⟩
  · rw [List.length_append]
    omega
  · intro count hcount
    rcases List.mem_append.1 hcount with hcount | hcount
    · exact hcounts' count hcount
    · exact hcounts count hcount

variable (T limit ask) in
theorem asks_replace (X : Symbol) (n : Nat) (source : σ × List Nat) :
    Asks T n source (replace T limit (recording ask) X n source).expansions
      (replace T limit (recording ask) X n source).source := by
  unfold replace
  split
  · exact .of_le (Nat.le_refl n) source
  · cases hfind : T.bodies? X with
    | none => exact .of_le (Nat.le_refl n) source
    | some bodies =>
        dsimp only
        cases exceeded? limit (n + 1) with
        | some bound => exact .of_le (Nat.le_succ n) source
        | none =>
            dsimp only
            split
            · exact .of_le (Nat.le_succ n) source
            · next hbodies =>
              have hone : Asks T n source (n + 1) (recording ask bodies.length source).2 := by
                refine ⟨[bodies.length], rfl, Nat.le_of_eq (Nat.add_comm 1 n), fun count hcount => ?_⟩
                rw [List.mem_singleton.1 hcount]
                exact ⟨fun h => hbodies (List.length_eq_zero_iff.1 h), X, bodies, hfind, rfl⟩
              cases bodyAt? bodies (recording ask bodies.length source).1 <;> exact hone

variable (T limit ask) in
theorem asks_step (s : State (σ × List Nat)) :
    Asks T s.expansions s.source (step T limit (recording ask) s).expansions
      (step T limit (recording ask) s).source := by
  obtain ⟨pending, words, n, source⟩ := s
  cases pending with
  | nil => exact .of_le (Nat.le_refl n) source
  | cons X pending =>
      have hasks := asks_replace T limit ask X n source
      rw [step_cons]
      cases hreplace : replace T limit (recording ask) X n source <;>
        (rw [hreplace] at hasks
         exact hasks)

variable {s t : State (σ × List Nat)} {e : Ending (σ × List Nat)}

theorem Leads.asks (h : Leads T limit (recording ask) s t) :
    Asks T s.expansions s.source t.expansions t.source := by
  induction h with
  | refl s => exact .of_le (Nat.le_refl _) s.source
  | @next s t u first _ ih =>
      have hstep := asks_step T limit ask s
      rw [first] at hstep
      exact hstep.trans ih

theorem Ends.asks (h : Ends T limit (recording ask) s e) :
    Asks T s.expansions s.source e.expansions e.source := by
  induction h with
  | @last s e only =>
      have hstep := asks_step T limit ask s
      rwa [only] at hstep
  | @next s t e first _ ih =>
      have hstep := asks_step T limit ask s
      rw [first] at hstep
      exact hstep.trans ih

end Questions

/-! ## Keeping the questions -/

section Sources

variable {τ : Type} {ask' : Nat → τ → Int × τ} {f : σ → τ} {fuel : Nat}

def State.mapSource (f : σ → τ) (s : State σ) : State τ :=
  ⟨s.pending, s.words, s.expansions, f s.source⟩

def Ending.mapSource (f : σ → τ) (e : Ending σ) : Ending τ := ⟨e.result, e.expansions, f e.source⟩

def Progress.mapSource (f : σ → τ) : Progress σ → Progress τ
  | .running s => .running (s.mapSource f)
  | .ended e => .ended (e.mapSource f)

variable (hf : ∀ count source, ask' count (f source) =
  ((ask count source).1, f (ask count source).2))

include hf

/-- Sources that give the same answers lead a derivation the same way. -/
theorem step_mapSource (s : State σ) :
    step T limit ask' (s.mapSource f) = (step T limit ask s).mapSource f := by
  obtain ⟨pending, words, n, source⟩ := s
  cases pending with
  | nil => rfl
  | cons X pending =>
      simp only [step, State.mapSource]
      split
      · rfl
      · simp only [expand]
        cases T.bodies? X with
        | none => rfl
        | some bodies =>
            dsimp only
            cases exceeded? limit (n + 1) with
            | some bound => rfl
            | none =>
                dsimp only
                split
                · rfl
                · rw [hf]
                  dsimp only
                  cases bodyAt? bodies (ask bodies.length source).1 <;> rfl

theorem run_mapSource (s : State σ) :
    run T limit ask' fuel (s.mapSource f) = (run T limit ask fuel s).map (·.mapSource f) := by
  induction fuel generalizing s with
  | zero => rfl
  | succ fuel ih =>
      rw [run, run, step_mapSource hf]
      cases step T limit ask s with
      | running t => exact ih t
      | ended e => rfl

end Sources

/-- Keeping its questions changes nothing else about a source. -/
theorem derive_recording (T : Table) (limit : Option Int) (ask : Nat → σ → Int × σ) (fuel : Nat)
    (start? : Option Symbol) (source : σ) (asked : List Nat) :
    (derive T limit (recording ask) fuel start? (source, asked)).map (·.mapSource Prod.fst) =
      derive T limit ask fuel start? source := by
  cases start? with
  | none => rfl
  | some S => exact (run_mapSource (fun _ _ => rfl) ⟨[S], [], 0, (source, asked)⟩).symm

/-- A derivation has an ending, after some questions to the source. -/
def EndsAfter (T : Table) (limit : Option Int) (ask : Nat → σ → Int × σ) (start? : Option Symbol)
    (source : σ) (asked : List Nat) (e : Ending σ) : Prop :=
  ∃ fuel, derive T limit ask fuel start? source = some e ∧
    derive T limit (recording ask) fuel start? (source, []) =
      some ⟨e.result, e.expansions, e.source, asked.reverse⟩

section EndsAfter

variable {start? : Option Symbol} {source : σ} {asked : List Nat} {e : Ending σ}

theorem endsAfter_iff : EndsAfter T limit ask start? source asked e ↔
    Ends T limit (recording ask) ⟨start?.toList, [], 0, (source, [])⟩
      ⟨e.result, e.expansions, e.source, asked.reverse⟩ := by
  rw [← exists_derive_iff]
  constructor
  · rintro ⟨fuel, -, h⟩
    exact ⟨fuel, h⟩
  · rintro ⟨fuel, h⟩
    refine ⟨fuel, ?_, h⟩
    rw [← derive_recording T limit ask fuel start? source [], h]
    rfl

theorem EndsAfter.unique {asked' : List Nat} {e' : Ending σ}
    (h : EndsAfter T limit ask start? source asked e)
    (h' : EndsAfter T limit ask start? source asked' e') : asked = asked' ∧ e = e' := by
  have hsame := (endsAfter_iff.1 h).unique (endsAfter_iff.1 h')
  obtain ⟨result, n, rest⟩ := e
  obtain ⟨result', n', rest'⟩ := e'
  obtain ⟨rfl, rfl, hsource⟩ := Ending.mk.inj hsame
  obtain ⟨rfl, hasked⟩ := Prod.mk.inj hsource
  exact ⟨List.reverse_inj.1 hasked, rfl⟩

theorem EndsAfter.length_le (h : EndsAfter T limit ask start? source asked e) :
    asked.length ≤ e.expansions := by
  obtain ⟨counts, hcounts, hlength, -⟩ := (endsAfter_iff.1 h).asks
  change asked.reverse = counts ++ [] at hcounts
  rw [← List.length_reverse, hcounts, List.append_nil]
  exact hlength

end EndsAfter

end Derivation

end BraceGrammar
