import BraceGrammar.Proofs.Failures
import BraceGrammar.Proofs.Forest
import Mathlib.Data.Finset.Dedup
import Mathlib.Data.Finset.Filter
import Mathlib.Data.Finset.Order
import Mathlib.Logic.Relation

/-!
# Derivations without recursion

When no bracketed symbol that is reachable leads back to itself, a derivation needs no limit.

The heads that a symbol leads to become fewer along the way (`IsAcyclic.headsFrom_ssubset`), so the
relation is well-founded and there is an induction along it.  The induction gives each symbol a
weight, which is more than the weight of each of its bodies, and the weight of a body is the sum of
the weights of its symbols.  A symbol takes no more passes of the loop than it weighs, whatever the
source answers and whatever is pending behind it (`Weighs`).
-/

namespace BraceGrammar

namespace Derivation

variable {σ : Type} {T : Table} {S X Y : Symbol} {Xs Ys : List Symbol} {v w : Nat}

/-! ## Acyclic tables -/

/-- A bracketed symbol stands in a body of a symbol. -/
def Occurs (T : Table) (X Y : Symbol) : Prop :=
  Y.isBracketed = true ∧ ∃ bodies body, T.bodies? X = some bodies ∧ body ∈ bodies ∧ Y ∈ body

/-- It does so among the symbols that can be reached. -/
def OccursFrom (T : Table) (S X Y : Symbol) : Prop :=
  Reachable T S X ∧ Reachable T S Y ∧ Occurs T X Y

/-- No symbol that can be reached leads back to itself. -/
def IsAcyclic (T : Table) (S : Symbol) : Prop := ∀ X, ¬Relation.TransGen (OccursFrom T S) X X

theorem isAcyclic_of_rank (rank : Symbol → Nat)
    (h : ∀ X Y, OccursFrom T S X Y → rank Y < rank X) : IsAcyclic T S := by
  intro X hcycle
  have hdown (Y : Symbol) (hY : Relation.TransGen (OccursFrom T S) X Y) : rank Y < rank X := by
    induction hY with
    | single hY => exact h X _ hY
    | tail _ hZ ih => exact Nat.lt_trans (h _ _ hZ) ih
  exact Nat.lt_irrefl _ (hdown X hcycle)

open Classical in
/-- The heads that a symbol leads to, itself included if it is one. -/
noncomputable def headsFrom (T : Table) (S X : Symbol) : Finset Symbol :=
  T.heads.toFinset.filter (Relation.ReflTransGen (OccursFrom T S) X)

open Classical in
theorem mem_headsFrom_iff :
    Y ∈ headsFrom T S X ↔ Y ∈ T.heads ∧ Relation.ReflTransGen (OccursFrom T S) X Y := by
  rw [headsFrom, Finset.mem_filter, List.mem_toFinset]

/-- A symbol leads to itself, but nothing that occurs in its bodies leads back to it. -/
theorem IsAcyclic.headsFrom_ssubset (h : IsAcyclic T S) (hXY : OccursFrom T S X Y) :
    headsFrom T S Y ⊂ headsFrom T S X := by
  rw [Finset.ssubset_iff_of_subset]
  · obtain ⟨-, bodies, body, hfind, -⟩ := hXY.2.2
    have hhead : X ∈ T.heads := (T.mem_keys_iff X).2 (Option.isSome_of_eq_some hfind)
    refine ⟨X, mem_headsFrom_iff.2 ⟨hhead, .refl⟩, fun hback => ?_⟩
    exact h X (Relation.TransGen.head' hXY (mem_headsFrom_iff.1 hback).2)
  · intro Z hZ
    obtain ⟨hhead, hleads⟩ := mem_headsFrom_iff.1 hZ
    exact mem_headsFrom_iff.2 ⟨hhead, .head hXY hleads⟩

theorem IsAcyclic.wellFounded (h : IsAcyclic T S) :
    WellFounded fun Y X => OccursFrom T S X Y :=
  Subrelation.wf (fun hXY => h.headsFrom_ssubset hXY) (InvImage.wf (headsFrom T S) wellFounded_lt)

/-! ## Weights -/

/-- From some pending symbols the loop never has more passes than a number, without a limit. -/
def TakesAtMost (T : Table) (count : Nat) (pending : List Symbol) : Prop :=
  ∀ (σ : Type) (ask : Nat → σ → Int × σ) (words : List String) (n : Nat) (source : σ) (steps : Nat),
    passes T none ask steps ⟨pending, words, n, source⟩ ≤ count

/-- Some symbols add no more passes than a number, whatever is pending behind them. -/
def Weighs (T : Table) (Xs : List Symbol) (weight : Nat) : Prop :=
  ∀ rest count, TakesAtMost T count rest → TakesAtMost T (weight + count) (Xs ++ rest)

theorem takesAtMost_nil : TakesAtMost T 0 [] :=
  fun _ _ words n source _ => Nat.le_of_eq (passes_nil words n source)

theorem weighs_nil (w : Nat) : Weighs T [] w := by
  intro rest count hrest σ ask words n source steps
  exact Nat.le_trans (hrest σ ask words n source steps) (Nat.le_add_left count w)

theorem Weighs.mono (h : Weighs T Xs v) (hle : v ≤ w) : Weighs T Xs w := by
  intro rest count hrest σ ask words n source steps
  have hpasses := h rest count hrest σ ask words n source steps
  omega

theorem Weighs.append (hXs : Weighs T Xs v) (hYs : Weighs T Ys w) :
    Weighs T (Xs ++ Ys) (v + w) := by
  intro rest count hrest
  rw [List.append_assoc, Nat.add_assoc]
  exact hXs _ _ (hYs rest count hrest)

/-- A symbol weighs one more than any of its bodies. -/
theorem weighs_singleton (h : X.isBracketed = true → ∀ bodies, T.bodies? X = some bodies →
      ∀ body ∈ bodies, Weighs T body w) : Weighs T [X] (w + 1) := by
  intro rest count hrest σ ask words n source steps
  cases steps with
  | zero => exact Nat.zero_le _
  | succ steps =>
      rw [List.singleton_append, Nat.add_right_comm]
      refine passes_succ_cons_le fun ws symbols n' source' hbecomes => ?_
      have hsymbols : Weighs T symbols w := by
        rcases replace_becomes_cases hbecomes with ⟨-, -, rfl, -, -⟩ | ⟨hX, -, -, -, hentry⟩
        · exact weighs_nil w
        · rcases hentry with ⟨-, rfl, -⟩ | ⟨bodies, index, hfind, rfl, -⟩
          · exact weighs_nil w
          · exact h hX bodies hfind _ (List.get_mem bodies index)
      exact hsymbols rest count hrest σ ask (ws.reverse ++ words) n' source' steps

theorem exists_weighs_of_forall (h : ∀ X ∈ Xs, ∃ w, Weighs T [X] w) : ∃ w, Weighs T Xs w := by
  induction Xs with
  | nil => exact ⟨0, weighs_nil 0⟩
  | cons X Xs ih =>
      rw [List.forall_mem_cons] at h
      obtain ⟨⟨v, hX⟩, hothers⟩ := h
      obtain ⟨w, hXs⟩ := ih hothers
      exact ⟨v + w, hX.append hXs⟩

/-- There are only so many bodies, so one weight is enough for all. -/
theorem exists_weighs_forall {bodies : List Body} (h : ∀ body ∈ bodies, ∃ w, Weighs T body w) :
    ∃ w, ∀ body ∈ bodies, Weighs T body w := by
  choose! weight hweight using h
  obtain ⟨most, hmost⟩ := (bodies.map weight).toFinset.exists_le
  refine ⟨most, fun body hbody => (hweight body hbody).mono (hmost _ ?_)⟩
  exact List.mem_toFinset.2 (List.mem_map_of_mem hbody)

/-- Symbols that can be reached have weights, when none of them leads back to itself. -/
theorem IsAcyclic.exists_weighs (h : IsAcyclic T S) (hX : Reachable T S X) :
    ∃ w, Weighs T [X] w := by
  induction X using h.wellFounded.induction with
  | _ X ih =>
    by_cases hbracketed : X.isBracketed = true
    · cases hfind : T.bodies? X with
      | none => exact ⟨1, weighs_singleton (w := 0) fun _ bodies hbodies => by simp [hfind] at hbodies⟩
      | some bodies =>
          -- the bracketed symbols of the bodies come later along the relation and have weights
          obtain ⟨w, hw⟩ : ∃ w, ∀ body ∈ bodies, Weighs T body w := by
            refine exists_weighs_forall fun body hbody => exists_weighs_of_forall fun Y hY => ?_
            have hreached : Reachable T S Y := .step hX hbracketed hfind hbody hY
            by_cases hYb : Y.isBracketed = true
            · exact ih Y ⟨hX, hreached, hYb, bodies, body, hfind, hbody, hY⟩ hreached
            · exact ⟨1, weighs_singleton (w := 0) fun hb => absurd hb hYb⟩
          refine ⟨w + 1, weighs_singleton fun _ bodies' hfind' => ?_⟩
          obtain rfl := Option.some.inj (hfind.symm.trans hfind')
          exact hw
    · exact ⟨1, weighs_singleton (w := 0) fun hb => absurd hb hbracketed⟩

/-! ## Derivations -/

/-- A derivation without a limit from a symbol comes to an end when none of the symbols that can be
reached leads back to itself.  Some number of steps is enough for every source, whatever it answers.
There is a text then, or an entry was missing, or an answer was no index. -/
theorem IsAcyclic.generate_ends (h : IsAcyclic T S) :
    ∃ fuel, ∀ (σ : Type) (ask : Nat → σ → Int × σ) (source : σ), ∃ result rest,
      generate T none ask fuel (some S) source = some (result, rest) ∧
        ((∃ text, result = .ok text) ∨ (∃ X, result = .error (.undefined X)) ∨
          ∃ index count, result = .error (.outOfRange index count)) := by
  obtain ⟨w, hw⟩ := h.exists_weighs .start
  refine ⟨w + 1, fun σ ask source => ?_⟩
  have hpasses : passes T none ask (w + 1) ⟨[S], [], 0, source⟩ ≤ w :=
    hw [] 0 takesAtMost_nil σ ask [] 0 source (w + 1)
  obtain ⟨⟨result, n, rest⟩, hrun⟩ := exists_run_of_passes_lt (Nat.lt_succ_of_le hpasses)
  have hgenerate : generate T none ask (w + 1) (some S) source =
      some (result.map sentence, rest) := by
    rw [generate, derive, hrun, Option.map_some]
  refine ⟨_, rest, hgenerate, ?_⟩
  rcases result with failure | words
  · obtain ⟨n', hends⟩ := exists_ends_of_generate hgenerate
    rcases hends.failure_cases rfl with ⟨X, -, -, -, rfl⟩ | ⟨bound, hlimit, -⟩ | ⟨t, bodies, -, -, -, rfl⟩
    · exact .inr (.inl ⟨X, rfl⟩)
    · cases hlimit
    · exact .inr (.inr ⟨_, _, rfl⟩)
  · exact .inl ⟨sentence words, rfl⟩

/-- Two levels of heads, a symbol without an entry, and a cycle that cannot be reached. -/
def twoLevels : Table :=
  .ofList [(⟨"<S>"⟩, [[⟨"<A>"⟩, ⟨"<A>"⟩], [⟨"c"⟩]]), (⟨"<A>"⟩, [[⟨"a"⟩], [⟨"<U>"⟩]]),
    (⟨"<X>"⟩, [[⟨"<X>"⟩]])]

def twoLevelsRank (X : Symbol) : Nat := if X = ⟨"<S>"⟩ then 2 else if X = ⟨"<A>"⟩ then 1 else 0

theorem isAcyclic_twoLevels : IsAcyclic twoLevels ⟨"<S>"⟩ := by
  refine isAcyclic_of_rank twoLevelsRank ?_
  rintro X Y ⟨hX, -, hY, bodies, body, hfind, hbody, hmem⟩
  have hranks : ∀ X ∈ [⟨"<S>"⟩, ⟨"<A>"⟩, ⟨"<U>"⟩, ⟨"a"⟩, ⟨"c"⟩], ∀ bodies ∈ twoLevels.bodies? X,
      ∀ body ∈ bodies, ∀ Y ∈ body, Y.isBracketed = true → twoLevelsRank Y < twoLevelsRank X := by
    decide
  have hreached : X ∈ [⟨"<S>"⟩, ⟨"<A>"⟩, ⟨"<U>"⟩, ⟨"a"⟩, ⟨"c"⟩] :=
    hX.mem_of_closed (by decide) (by decide)
  exact hranks X hreached bodies hfind body hbody Y hmem hY

theorem generate_ends_twoLevels :
    IsAcyclic twoLevels ⟨"<S>"⟩ ∧
      ∃ fuel, ∀ answers : List Int, ∃ result rest,
        generate twoLevels none answering fuel (some ⟨"<S>"⟩) answers = some (result, rest) ∧
          ((∃ text, result = .ok text) ∨ (∃ X, result = .error (.undefined X)) ∨
            ∃ index count, result = .error (.outOfRange index count)) := by
  obtain ⟨fuel, hfuel⟩ := isAcyclic_twoLevels.generate_ends
  exact ⟨isAcyclic_twoLevels, fuel, hfuel (List Int) answering⟩

end Derivation

end BraceGrammar
