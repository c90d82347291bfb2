import BraceGrammar.Derivation.Reachable
import BraceGrammar.Proofs.Run

/-!
# Reachable symbols along a run

Whatever the source answers, a symbol gives way to symbols that are reachable from it
(`reachable_of_becomes`).  So all that is pending at any time is reachable from what was pending at
first (`Leads.exists_reachable`).
-/

namespace BraceGrammar

namespace Derivation

variable {σ : Type} {T : Table} {limit : Option Int} {ask : Nat → σ → Int × σ} {S : Symbol}

/-- A reachable symbol is where the derivation starts, or stands in a body of a head that is
reachable. -/
theorem Reachable.eq_or_mem_body {Y : Symbol} (h : Reachable T S Y) :
    Y = S ∨ ∃ X bodies body, Reachable T S X ∧ X.isBracketed = true ∧
      T.bodies? X = some bodies ∧ body ∈ bodies ∧ Y ∈ body := by
  cases h with
  | start => exact .inl rfl
  | step reached isBracketed found chosen member =>
      exact .inr ⟨_, _, _, reached, isBracketed, found, chosen, member⟩

/-- What is reachable from a symbol stays among any symbols whose bodies do. -/
theorem Reachable.mem_of_closed {Xs : List Symbol} {Y : Symbol} (h : Reachable T S Y) (hS : S ∈ Xs)
    (hclosed : ∀ X ∈ Xs, ∀ bodies ∈ T.bodies? X, ∀ body ∈ bodies, ∀ Z ∈ body, Z ∈ Xs) : Y ∈ Xs := by
  induction h with
  | start => exact hS
  | step _ _ found chosen member ih => exact hclosed _ ih _ found _ chosen _ member

/-- What stands in the place of a reachable symbol is reachable. -/
theorem reachable_of_becomes {X : Symbol} {n n' : Nat} {source source' : σ} {ws : List String}
    {symbols : Body} (h : replace T limit ask X n source = .becomes ws symbols n' source')
    (hX : Reachable T S X) : ∀ Y ∈ symbols, Reachable T S Y := by
  intro Y hY
  rcases replace_becomes_cases h with ⟨-, -, rfl, -, -⟩ | ⟨hbracketed, -, -, -, hentry⟩
  · cases hY
  · rcases hentry with ⟨-, rfl, -⟩ | ⟨bodies, index, hfind, rfl, -⟩
    · cases hY
    · exact .step hX hbracketed hfind (List.get_mem bodies index) hY

/-- All that is pending has come of what was pending. -/
theorem Leads.exists_reachable {s t : State σ} (h : Leads T limit ask s t) :
    ∀ Y ∈ t.pending, ∃ X ∈ s.pending, Reachable T X Y := by
  refine h.keeps (motive := fun u => ∀ Y ∈ u.pending, ∃ X ∈ s.pending, Reachable T X Y) ?_
    fun Y hY => ⟨Y, hY, .start⟩
  intro X pending words n source ws symbols n' source' hbecomes hpending Y hY
  obtain ⟨⟨Z, hZ, hX⟩, hothers⟩ := List.forall_mem_cons.1 hpending
  rcases List.mem_append.1 hY with hY | hY
  · exact ⟨Z, hZ, reachable_of_becomes hbecomes hX Y hY⟩
  · exact hothers Y hY

end Derivation

end BraceGrammar
