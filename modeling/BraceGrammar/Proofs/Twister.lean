import BraceGrammar.Choice.Source
import Mathlib.Data.Fintype.BigOperators
import Mathlib.Data.Fintype.Pigeonhole

/-!
# Drawing numbers under a bound

A generator that is drawn from again and again goes through its states.  The number that is answered
is the first one under the bound (`below?_eq_some_iff`).  There are fewer states than attempts, so
when all attempts have failed the generator has come to a state for the second time, and goes round
in a circle in which no number is under the bound: there never is an answer (`below?_eq_none_iff`).
-/

namespace BraceGrammar

namespace Choice

namespace Twister

variable {bound : Nat} {t t' : Twister}

/-! ## Attempts -/

/-- The generator after so many attempts. -/
def after (bound : Nat) (t : Twister) (attempts : Nat) : Twister :=
  (fun t => (t.bits (bound.log2 + 1)).2)^[attempts] t

/-- What is drawn after so many attempts. -/
def drawn (bound : Nat) (t : Twister) (attempts : Nat) : Nat :=
  ((after bound t attempts).bits (bound.log2 + 1)).1

theorem belowWithin?_succ (bound attempts : Nat) (t : Twister) :
    belowWithin? bound (attempts + 1) t =
      if drawn bound t 0 < bound then some (drawn bound t 0, after bound t 1)
      else belowWithin? bound attempts (after bound t 1) := rfl

theorem belowWithin?_eq_none_iff {attempts : Nat} :
    belowWithin? bound attempts t = none ↔ ∀ k < attempts, bound ≤ drawn bound t k := by
  induction attempts generalizing t with
  | zero => exact iff_of_true rfl fun k hk => absurd hk (Nat.not_lt_zero k)
  | succ attempts ih =>
      rw [belowWithin?_succ, Nat.forall_lt_succ_left]
      split
      · next hless =>
        exact iff_of_false (Option.some_ne_none _) fun h => absurd h.1 (Nat.not_le.2 hless)
      · next hge =>
        rw [ih, and_iff_right (Nat.le_of_not_lt hge)]
        rfl

theorem belowWithin?_eq_some_iff {attempts r : Nat} :
    belowWithin? bound attempts t = some (r, t') ↔
      ∃ k < attempts, (∀ j < k, bound ≤ drawn bound t j) ∧ drawn bound t k < bound ∧
        drawn bound t k = r ∧ after bound t (k + 1) = t' := by
  induction attempts generalizing t with
  | zero =>
      refine iff_of_false (Option.some_ne_none _).symm ?_
      rintro ⟨k, hk, -⟩
      exact Nat.not_lt_zero k hk
  | succ attempts ih =>
      rw [belowWithin?_succ]
      split
      · next hless =>
        constructor
        · intro h
          obtain ⟨hr, ht⟩ := Prod.mk.inj (Option.some.inj h)
          exact ⟨0, Nat.succ_pos _, fun j hj => absurd hj (Nat.not_lt_zero j), hless, hr, ht⟩
        · rintro ⟨k, -, hbefore, -, rfl, rfl⟩
          obtain _ | k := k
          · rfl
          · exact absurd (hbefore 0 (Nat.succ_pos k)) (Nat.not_le.2 hless)
      · next hge =>
        rw [ih]
        constructor
        · rintro ⟨k, hk, hbefore, hless, hr, ht⟩
          refine ⟨k + 1, Nat.succ_lt_succ hk, fun j hj => ?_, hless, hr, ht⟩
          obtain _ | j := j
          · exact Nat.le_of_not_lt hge
          · exact hbefore j (Nat.lt_of_succ_lt_succ hj)
        · rintro ⟨k, hk, hbefore, hless, hr, ht⟩
          obtain _ | k := k
          · exact absurd hless hge
          · exact ⟨k, Nat.lt_of_succ_lt_succ hk, fun j hj => hbefore (j + 1) (Nat.succ_lt_succ hj),
              hless, hr, ht⟩

/-! ## States -/

theorem position_next_le (t : Twister) : t.next.2.position ≤ degree := by
  unfold next
  split
  · next h => exact h
  · exact Nat.le_of_ble_eq_true rfl

theorem position_bits_le (k : Nat) (t : Twister) : (t.bits k).2.position ≤ degree := by
  induction k using Nat.strong_induction_on generalizing t with
  | _ k ih =>
      rw [bits]
      dsimp only
      split
      · exact position_next_le t
      · exact ih (k - 32) (by omega) t.next.2

theorem position_after_le (bound : Nat) (t : Twister) (attempts : Nat) :
    (after bound t (attempts + 1)).position ≤ degree := by
  rw [after, Function.iterate_succ_apply']
  exact position_bits_le _ _

/-- What a generator that has been drawn from consists of. -/
def state (t : Twister) : (Fin degree → Fin UInt32.size) × Fin (degree + 1) :=
  (fun i => t.words[i].toFin, Fin.ofNat _ t.position)

theorem eq_of_state_eq (h : t.position ≤ degree) (h' : t'.position ≤ degree)
    (heq : state t = state t') : t = t' := by
  obtain ⟨hwords, hposition⟩ := Prod.mk.inj heq
  obtain ⟨words, position⟩ := t
  obtain ⟨words', position'⟩ := t'
  dsimp only at h h'
  have hsame : position % (degree + 1) = position' % (degree + 1) := congrArg Fin.val hposition
  rw [Nat.mod_eq_of_lt (Nat.lt_succ_of_le h), Nat.mod_eq_of_lt (Nat.lt_succ_of_le h')] at hsame
  have hall : words = words' :=
    Vector.ext fun i hi => UInt32.toFin_inj.1 (congrFun hwords ⟨i, hi⟩)
  rw [hall, hsame]

theorem card_states_lt :
    Fintype.card ((Fin degree → Fin UInt32.size) × Fin (degree + 1)) < maxAttempts := by
  rw [Fintype.card_prod, Fintype.card_fun, Fintype.card_fin, Fintype.card_fin, Fintype.card_fin]
  decide +kernel

/-- What comes to where it has been goes round in a circle. -/
theorem exists_iterate_eq {α : Type} {f : α → α} {x : α} {i j : Nat} (hij : i < j)
    (h : f^[i] x = f^[j] x) (k : Nat) : ∃ m < j, f^[k] x = f^[m] x := by
  induction k using Nat.strong_induction_on with
  | _ k ih =>
      by_cases hk : k < j
      · exact ⟨k, hk, rfl⟩
      · obtain ⟨m, hm, heq⟩ := ih (k - j + i) (by omega)
        refine ⟨m, hm, ?_⟩
        rw [← heq, Function.iterate_add_apply, h, ← Function.iterate_add_apply,
          Nat.sub_add_cancel (Nat.le_of_not_lt hk)]

/-- Among so many attempts two leave the generator in one state. -/
theorem exists_after_eq (bound : Nat) (t : Twister) :
    ∃ i j, i < j ∧ j ≤ maxAttempts ∧ after bound t i = after bound t j := by
  have hcard : Fintype.card ((Fin degree → Fin UInt32.size) × Fin (degree + 1)) <
      Fintype.card (Fin maxAttempts) := by
    rw [Fintype.card_fin]
    exact card_states_lt
  obtain ⟨i, j, hne, heq⟩ := Fintype.exists_ne_map_eq_of_card_lt
    (fun k : Fin maxAttempts => state (after bound t (k + 1))) hcard
  have hsame := eq_of_state_eq (position_after_le bound t i) (position_after_le bound t j) heq
  rcases Nat.lt_or_gt_of_ne (fun h => hne (Fin.ext h)) with hless | hless
  · exact ⟨i + 1, j + 1, Nat.succ_lt_succ hless, j.isLt, hsame⟩
  · exact ⟨j + 1, i + 1, Nat.succ_lt_succ hless, i.isLt, hsame.symm⟩

/-! ## Answers -/

/-- There is no answer just when no number that is ever drawn is under the bound. -/
theorem below?_eq_none_iff : t.below? bound = none ↔ ∀ k, bound ≤ drawn bound t k := by
  rw [below?, belowWithin?_eq_none_iff]
  refine ⟨fun h k => ?_, fun h k _ => h k⟩
  obtain ⟨i, j, hij, hj, hsame⟩ := exists_after_eq bound t
  obtain ⟨m, hm, heq⟩ := exists_iterate_eq hij hsame k
  have hdrawn : drawn bound t k = drawn bound t m := by
    rw [drawn, drawn, after, after, heq]
  rw [hdrawn]
  exact h m (Nat.lt_of_lt_of_le hm hj)

/-- The answer is the first number under the bound, and the generator is left behind it. -/
theorem below?_eq_some_iff {r : Nat} : t.below? bound = some (r, t') ↔
    ∃ k, (∀ j < k, bound ≤ drawn bound t j) ∧ drawn bound t k < bound ∧ drawn bound t k = r ∧
      after bound t (k + 1) = t' := by
  rw [below?, belowWithin?_eq_some_iff]
  refine ⟨fun ⟨k, _, h⟩ => ⟨k, h⟩, fun ⟨k, hbefore, hless, hrest⟩ => ⟨k, ?_, hbefore, hless, hrest⟩⟩
  by_contra hk
  have hnone := below?_eq_none_iff.1 (belowWithin?_eq_none_iff.2 fun j hj =>
    hbefore j (Nat.lt_of_lt_of_le hj (Nat.le_of_not_lt hk))) k
  exact absurd hless (Nat.not_lt.2 hnone)

end Twister

namespace Source

/-- A generator answers with the first number under the count, unless there will never be one. -/
theorem ask_seeded_cases (count : Nat) (t : Twister) :
    (∃ k, (∀ j < k, count ≤ t.drawn count j) ∧ t.drawn count k < count ∧
        ask count (.seeded t) = ((t.drawn count k : Int), .seeded (t.after count (k + 1)))) ∨
      ((∀ k, count ≤ t.drawn count k) ∧ ask count (.seeded t) = (0, .seeded t)) := by
  cases hbelow : t.below? count with
  | none =>
      refine .inr ⟨Twister.below?_eq_none_iff.1 hbelow, ?_⟩
      simp only [ask, hbelow]
  | some answer =>
      obtain ⟨r, t'⟩ := answer
      obtain ⟨k, hbefore, hless, rfl, rfl⟩ := Twister.below?_eq_some_iff.1 hbelow
      refine .inl ⟨k, hbefore, hless, ?_⟩
      simp only [ask, hbelow]

end Source

end Choice

end BraceGrammar
