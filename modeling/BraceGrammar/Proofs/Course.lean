import BraceGrammar.Proofs.Questions

/-!
# The course of a run

A run that never ends has gone so far, too, within a number of steps.  `after` says where it is by
then, `passes` how often it has gone round its loop, which is once for each symbol that it takes, and
`questions` what a derivation has asked its source.

What has been asked by then are the first questions of those asked in all (`questions_isPrefix`), and
a run has ended that had more steps than its loop has passes (`exists_run_of_passes_lt`).
-/

namespace BraceGrammar

namespace Derivation

variable {σ : Type}

section Definitions

variable (T : Table) (limit : Option Int) (ask : Nat → σ → Int × σ)

/-- Where so many steps lead, if there is no ending before. -/
def after : Nat → State σ → Progress σ
  | 0, s => .running s
  | steps + 1, s =>
    match step T limit ask s with
    | .running t => after steps t
    | .ended e => .ended e

/-- How often the loop is gone round within so many steps.  When nothing is pending it is left
without another pass. -/
def passes : Nat → State σ → Nat
  | 0, _ => 0
  | steps + 1, s =>
    if s.pending = [] then 0
    else
      match step T limit ask s with
      | .running t => passes steps t + 1
      | .ended _ => 1

/-- What the source is asked within so many steps of a derivation, in order. -/
def questions (steps : Nat) (start? : Option Symbol) (source : σ) : List Nat :=
  (after T limit (recording ask) steps ⟨start?.toList, [], 0, (source, [])⟩).source.2.reverse

end Definitions

variable {T : Table} {limit : Option Int} {ask : Nat → σ → Int × σ} {steps : Nat}

/-! ## Places on the way -/

section After

variable {s t : State σ} {e : Ending σ}

theorem leads_of_after (h : after T limit ask steps s = .running t) : Leads T limit ask s t := by
  induction steps generalizing s with
  | zero =>
      obtain rfl := Progress.running.inj h
      exact .refl s
  | succ steps ih =>
      rw [after] at h
      split at h
      · next first => exact .next first (ih h)
      · cases h

theorem ends_of_after (h : after T limit ask steps s = .ended e) : Ends T limit ask s e := by
  induction steps generalizing s with
  | zero => cases h
  | succ steps ih =>
      rw [after] at h
      split at h
      · next first => exact .next first (ih h)
      · next only =>
        obtain rfl := Progress.ended.inj h
        exact .last only

end After

/-! ## Questions -/

section Questions

variable {start? : Option Symbol} {source : σ}

variable (T limit ask) in
theorem asks_after (steps : Nat) (s : State (σ × List Nat)) :
    Asks T s.expansions s.source (after T limit (recording ask) steps s).expansions
      (after T limit (recording ask) steps s).source := by
  cases h : after T limit (recording ask) steps s with
  | running t => exact (leads_of_after h).asks
  | ended e => exact (ends_of_after h).asks

/-- Questions are for the bodies of an entry, of which there are some. -/
theorem exists_bodies_of_mem_questions {n : Nat}
    (h : n ∈ questions T limit ask steps start? source) :
    1 ≤ n ∧ ∃ X bodies, T.bodies? X = some bodies ∧ n = bodies.length := by
  obtain ⟨counts, hcounts, -, hasked⟩ :=
    asks_after T limit ask steps ⟨start?.toList, [], 0, (source, [])⟩
  rw [questions, List.mem_reverse, hcounts, List.append_nil] at h
  obtain ⟨hne, hbodies⟩ := hasked n h
  exact ⟨Nat.one_le_iff_ne_zero.2 hne, hbodies⟩

/-- What has been asked within a number of steps comes first among all that is asked. -/
theorem questions_isPrefix {asked : List Nat} {e : Ending σ}
    (h : EndsAfter T limit ask start? source asked e) (steps : Nat) :
    questions T limit ask steps start? source <+: asked := by
  have hends := endsAfter_iff.1 h
  unfold questions
  cases hafter : after T limit (recording ask) steps ⟨start?.toList, [], 0, (source, [])⟩ with
  | running t =>
      obtain ⟨counts, hcounts, -⟩ := ((leads_of_after hafter).ends_of_ends hends).asks
      change asked.reverse = counts ++ t.source.2 at hcounts
      refine ⟨counts.reverse, ?_⟩
      rw [Progress.source, ← List.reverse_append, ← hcounts, List.reverse_reverse]
  | ended e' =>
      obtain rfl := (ends_of_after hafter).unique hends
      refine ⟨[], ?_⟩
      rw [Progress.source, List.append_nil, List.reverse_reverse]

end Questions

/-! ## Passes -/

section Passes

theorem passes_nil (words : List String) (n : Nat) (source : σ) :
    passes T limit ask steps ⟨[], words, n, source⟩ = 0 := by
  cases steps <;> rfl

theorem passes_succ_cons (X : Symbol) (pending : List Symbol) (words : List String) (n : Nat)
    (source : σ) :
    passes T limit ask (steps + 1) ⟨X :: pending, words, n, source⟩ =
      match replace T limit ask X n source with
      | .becomes ws symbols n source =>
        passes T limit ask steps ⟨symbols ++ pending, ws.reverse ++ words, n, source⟩ + 1
      | .fails _ _ _ => 1 := by
  rw [passes, if_neg (List.cons_ne_nil X pending), step_cons]
  cases replace T limit ask X n source <;> rfl

/-- When a symbol is taken, the pass that takes it comes on top of those for what stands in its
place. -/
theorem passes_succ_cons_le {X : Symbol} {pending : List Symbol} {words : List String} {n : Nat}
    {source : σ} {bound : Nat}
    (h : ∀ ws symbols n' source', replace T limit ask X n source = .becomes ws symbols n' source' →
      passes T limit ask steps ⟨symbols ++ pending, ws.reverse ++ words, n', source'⟩ ≤ bound) :
    passes T limit ask (steps + 1) ⟨X :: pending, words, n, source⟩ ≤ bound + 1 := by
  rw [passes_succ_cons]
  cases hreplace : replace T limit ask X n source with
  | fails failure n' source' => exact Nat.le_add_left 1 bound
  | becomes ws symbols n' source' =>
      exact Nat.succ_le_succ (h ws symbols n' source' hreplace)

/-- A run ends within one step more than its loop has passes. -/
theorem exists_run_of_passes_lt {s : State σ} (h : passes T limit ask steps s < steps) :
    ∃ e, run T limit ask steps s = some e := by
  induction steps generalizing s with
  | zero => exact absurd h (Nat.not_lt_zero _)
  | succ steps ih =>
      obtain ⟨pending, words, n, source⟩ := s
      cases pending with
      | nil => exact ⟨_, by rw [run, step_nil]⟩
      | cons X pending =>
          rw [passes_succ_cons] at h
          rw [run, step_cons]
          cases hreplace : replace T limit ask X n source with
          | fails failure n' source' => exact ⟨_, rfl⟩
          | becomes ws symbols n' source' =>
              rw [hreplace] at h
              exact ih (Nat.lt_of_succ_lt_succ h)

end Passes

end Derivation

end BraceGrammar
