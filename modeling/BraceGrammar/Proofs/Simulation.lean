import BraceGrammar.Derivation.Renaming
import BraceGrammar.Proofs.Course

/-!
# Derivations that run alike

Two tables may give renamed bodies to renamed symbols, if not to all then to those of a kind that is
closed under taking bodies (`Mirrors`).  Then a symbol of the kind becomes in one table, renamed, what
it becomes in the other (`Mirrors.replace_rename`).  All that is ever pending is of the kind, so the
same holds of steps and of runs of any length (`Mirrors.after_rename`), whatever the limit and the
source, which are asked the same questions on the way.
-/

namespace BraceGrammar

namespace Derivation

variable {σ : Type} {limit : Option Int} {ask : Nat → σ → Int × σ}

/-! ## Runs and where they lead -/

/-- The ending, if there is one by now. -/
def Progress.ending? : Progress σ → Option (Ending σ)
  | .running _ => none
  | .ended e => some e

theorem run_eq_ending?_after (T : Table) (limit : Option Int) (ask : Nat → σ → Int × σ) (steps : Nat)
    (s : State σ) : run T limit ask steps s = (after T limit ask steps s).ending? := by
  induction steps generalizing s with
  | zero => rfl
  | succ steps ih =>
      rw [run, after]
      cases step T limit ask s with
      | running t => exact ih t
      | ended e => rfl

/-! ## Two tables -/

/-- `U` has the entries that symbols of a kind have in `T`, renamed, and the bodies of these symbols
are of the kind. -/
structure Mirrors (f : Symbol → Symbol) (kind : Symbol → Prop) (T U : Table) : Prop where
  isBracketed_eq : ∀ X, kind X → (f X).isBracketed = X.isBracketed
  bodies?_eq : ∀ X, kind X → X.isBracketed = true →
    U.bodies? (f X) = (T.bodies? X).map (·.map (·.map f))
  kind_of_mem : ∀ X bodies body, kind X → X.isBracketed = true → T.bodies? X = some bodies →
    body ∈ bodies → ∀ Y ∈ body, kind Y

variable {f : Symbol → Symbol} {kind : Symbol → Prop} {T U : Table}

/-! ## One symbol -/

def Replacement.rename (f : Symbol → Symbol) : Replacement σ → Replacement σ
  | .becomes words symbols n source => .becomes (words.map (renameWord f)) (symbols.map f) n source
  | .fails failure n source => .fails (failure.rename f) n source

theorem bodyAt?_map (g : Body → Body) (bodies : List Body) (index : Int) :
    bodyAt? (bodies.map g) index = (bodyAt? bodies index).map g := by
  unfold bodyAt?
  split
  · exact List.getElem?_map
  · rfl

namespace Mirrors

variable (h : Mirrors f kind T U)

include h

variable (limit ask) in
theorem replace_rename {X : Symbol} (hX : kind X) (n : Nat) (source : σ) :
    replace U limit ask (f X) n source = (replace T limit ask X n source).rename f := by
  have hplain : (f X).isPlain = X.isPlain := by
    rw [Symbol.isPlain, Symbol.isPlain, h.isBracketed_eq X hX]
  unfold replace
  rw [hplain]
  split
  · rfl
  · next hbracketed =>
    rw [h.bodies?_eq X hX (by simpa [Symbol.isPlain] using hbracketed)]
    cases T.bodies? X with
    | none => rfl
    | some bodies =>
        dsimp only [Option.map_some]
        cases exceeded? limit (n + 1) with
        | some bound => rfl
        | none =>
            dsimp only
            simp only [List.map_eq_nil_iff, List.length_map, bodyAt?_map]
            split
            · rfl
            · cases bodyAt? bodies (ask bodies.length source).1 <;> rfl

theorem kind_of_becomes {X : Symbol} {n n' : Nat} {source source' : σ} {ws : List String}
    {symbols : Body} (hX : kind X)
    (hbecomes : replace T limit ask X n source = .becomes ws symbols n' source') :
    ∀ Y ∈ symbols, kind Y := by
  obtain ⟨-, -, rfl, -, -⟩ | ⟨hbracketed, -, -, -, ⟨-, rfl, -⟩ | ⟨bodies, index, hfind, rfl, -⟩⟩ :=
    replace_becomes_cases hbecomes
  · simp
  · simp
  · exact h.kind_of_mem X bodies _ hX hbracketed hfind (List.get_mem bodies index)

/-! ## Steps and runs -/

variable {s t : State σ}

variable (limit ask) in
theorem step_rename (hs : ∀ X ∈ s.pending, kind X) :
    step U limit ask (s.rename f) = (step T limit ask s).rename f := by
  obtain ⟨pending, words, n, source⟩ := s
  cases pending with
  | nil =>
      simp only [State.rename, List.map_nil, step_nil, Progress.rename, Ending.rename]
      rw [← List.map_reverse]
      rfl
  | cons X pending =>
      have hX : kind X := hs X List.mem_cons_self
      simp only [State.rename, List.map_cons, step_cons, h.replace_rename limit ask hX]
      cases replace T limit ask X n source with
      | becomes ws symbols n' source' =>
          simp only [Replacement.rename, Progress.rename, State.rename, List.map_append,
            List.map_reverse]
      | fails failure n' source' => rfl

/-- What is pending stays of the kind. -/
theorem kind_of_leads (hleads : Leads T limit ask s t) (hs : ∀ X ∈ s.pending, kind X) :
    ∀ X ∈ t.pending, kind X := by
  refine hleads.keeps (motive := fun u => ∀ X ∈ u.pending, kind X) ?_ hs
  intro X pending words n source ws symbols n' source' hbecomes hpending
  obtain ⟨hX, hothers⟩ := List.forall_mem_cons.1 hpending
  exact List.forall_mem_append.2 ⟨h.kind_of_becomes hX hbecomes, hothers⟩

variable (limit ask) in
theorem after_rename (hs : ∀ X ∈ s.pending, kind X) (steps : Nat) :
    after U limit ask steps (s.rename f) = (after T limit ask steps s).rename f := by
  induction steps generalizing s with
  | zero => rfl
  | succ steps ih =>
      rw [after, after, h.step_rename limit ask hs]
      cases hstep : step T limit ask s with
      | running t => exact ih (h.kind_of_leads (.next hstep (.refl t)) hs)
      | ended e => rfl

/-! ## Derivations -/

variable {start? : Option Symbol} (hstart : ∀ S ∈ start?, kind S)

include hstart

variable (limit ask)

theorem after_rename_start (steps : Nat) (source : σ) :
    after U limit ask steps ⟨(start?.map f).toList, [], 0, source⟩ =
      (after T limit ask steps ⟨start?.toList, [], 0, source⟩).rename f := by
  let s : State σ := ⟨start?.toList, [], 0, source⟩
  have hs : ∀ X ∈ s.pending, kind X := fun X hX => hstart X (Option.mem_toList.1 hX)
  have hrename : s.rename f = ⟨(start?.map f).toList, [], 0, source⟩ := by
    rw [Option.toList_map]
    rfl
  rw [← hrename]
  exact h.after_rename limit ask hs steps

theorem derive_rename (fuel : Nat) (source : σ) :
    derive U limit ask fuel (start?.map f) source =
      (derive T limit ask fuel start? source).map (·.rename f) := by
  cases start? with
  | none => rfl
  | some S =>
      have hafter := h.after_rename_start limit ask hstart fuel source
      simp only [Option.map_some, Option.toList_some] at hafter
      rw [Option.map_some, derive, derive, run_eq_ending?_after, run_eq_ending?_after, hafter]
      cases after T limit ask fuel ⟨[S], [], 0, source⟩ <;> rfl

theorem questions_rename (steps : Nat) (source : σ) :
    questions U limit ask steps (start?.map f) source = questions T limit ask steps start? source := by
  rw [questions, questions, h.after_rename_start limit (recording ask) hstart]
  cases after T limit (recording ask) steps ⟨start?.toList, [], 0, (source, [])⟩ <;> rfl

end Mirrors

end Derivation

end BraceGrammar
