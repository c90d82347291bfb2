import BraceGrammar.Proofs.Forest
import BraceGrammar.Proofs.OrderedMap
import BraceGrammar.Proofs.Simulation
import Mathlib.Data.List.Nodup

/-!
# Renaming commutes with deriving

A renaming keeps bracketed symbols apart, so that a renamed head has in the renamed table just the
bodies that the head has in the table, renamed, and no entry when the head has none
(`Table.bodies?_rename`).  That is all a derivation needs in order to go the same way: from a renamed
table it gives what it gives from the table, with the words and the failure renamed.
-/

namespace BraceGrammar

variable {f : Symbol → Symbol} (hf : Symbol.IsRenaming f)

/-! ## Renamed tables -/

namespace Table

include hf

theorem entries_rename (T : Table) :
    (T.rename f).entries =
      (T.entries.filter fun e => e.1.isBracketed).map fun e => (f e.1, e.2.map (·.map f)) := by
  refine OrderedMap.entries_ofList ?_
  have hheads : ((T.entries.filter fun e => e.1.isBracketed).map Prod.fst).Nodup :=
    T.keys_nodup.sublist (List.filter_sublist.map Prod.fst)
  have hbracketed : ∀ X ∈ (T.entries.filter fun e => e.1.isBracketed).map Prod.fst,
      X.isBracketed = true := by
    rintro X hX
    obtain ⟨e, he, rfl⟩ := List.mem_map.1 hX
    exact (List.mem_filter.1 he).2
  have hrenamed := hheads.map_on fun X hX Y hY hXY =>
    hf.eq_of_eq X Y (hbracketed X hX) (hbracketed Y hY) hXY
  rw [List.map_map] at hrenamed ⊢
  exact hrenamed

/-- The entries of a renamed table are those of the bracketed heads, renamed, and no others. -/
theorem bodies?_rename_eq_some_iff (T : Table) (Y : Symbol) (renamed : List Body) :
    (T.rename f).bodies? Y = some renamed ↔
      ∃ X bodies, X.isBracketed = true ∧ T.bodies? X = some bodies ∧ f X = Y ∧
        bodies.map (·.map f) = renamed := by
  rw [← (T.rename f).mem_entries_iff Y renamed, entries_rename hf, List.mem_map]
  constructor
  · rintro ⟨⟨X, bodies⟩, he, heq⟩
    obtain ⟨hmem, hX⟩ := List.mem_filter.1 he
    obtain ⟨hY, hrenamed⟩ := Prod.mk.inj heq
    exact ⟨X, bodies, hX, (T.mem_entries_iff X bodies).1 hmem, hY, hrenamed⟩
  · rintro ⟨X, bodies, hX, hfind, rfl, rfl⟩
    exact ⟨(X, bodies), List.mem_filter.2 ⟨(T.mem_entries_iff X bodies).2 hfind, hX⟩, rfl⟩

theorem bodies?_rename (T : Table) {X : Symbol} (hX : X.isBracketed = true) :
    (T.rename f).bodies? (f X) = (T.bodies? X).map (·.map (·.map f)) := by
  refine Option.ext fun renamed => ?_
  rw [bodies?_rename_eq_some_iff hf, Option.map_eq_some_iff]
  constructor
  · rintro ⟨Y, bodies, hY, hfind, hfY, hrenamed⟩
    obtain rfl := hf.eq_of_eq Y X hY hX hfY
    exact ⟨bodies, hfind, hrenamed⟩
  · rintro ⟨bodies, hfind, hrenamed⟩
    exact ⟨X, bodies, hX, hfind, rfl, hrenamed⟩

end Table

namespace Derivation

variable {σ : Type}

include hf in
theorem mirrors_rename (T : Table) : Mirrors f (fun _ => True) T (T.rename f) where
  isBracketed_eq X _ := hf.isBracketed_eq X
  bodies?_eq _ _ hX := T.bodies?_rename hf hX
  kind_of_mem _ _ _ _ _ _ _ _ _ := trivial

/-! ## Renamed derivations -/

variable (T : Table) (limit : Option Int) (ask : Nat → σ → Int × σ) (S : Symbol) (source : σ)
  (steps : Nat)

include hf in
/-- Renaming a table and the start symbol renames what a derivation gives, whatever the limit and the
source.  There is a text of the renamed words just when there is a text, and the same kind of failure,
about the renamed symbol, just when there is a failure.  The source is asked the same. -/
theorem generate_rename :
    derive (T.rename f) limit ask steps (some (f S)) source =
        (derive T limit ask steps (some S) source).map (·.rename f) ∧
      (∀ text rest, generate (T.rename f) limit ask steps (some (f S)) source = some (.ok text, rest) ↔
        ∃ words n, derive T limit ask steps (some S) source = some ⟨.ok words, n, rest⟩ ∧
          generate T limit ask steps (some S) source = some (.ok (sentence words), rest) ∧
          sentence (words.map (renameWord f)) = text) ∧
      (∀ failure rest,
        generate (T.rename f) limit ask steps (some (f S)) source = some (.error failure, rest) ↔
          ∃ cause, generate T limit ask steps (some S) source = some (.error cause, rest) ∧
            cause.rename f = failure) ∧
      questions (T.rename f) limit ask steps (some (f S)) source =
        questions T limit ask steps (some S) source := by
  have hmirrors := mirrors_rename hf T
  have hstart : ∀ X ∈ some S, True := fun _ _ => trivial
  have hderive : derive (T.rename f) limit ask steps (some (f S)) source =
      (derive T limit ask steps (some S) source).map (·.rename f) :=
    hmirrors.derive_rename limit ask hstart steps source
  refine ⟨hderive, fun text rest => ?_, fun failure rest => ?_,
    hmirrors.questions_rename limit ask hstart steps source⟩
  · simp only [generate_eq_ok_iff, hderive, Option.map_eq_some_iff]
    constructor
    · rintro ⟨renamed, n, ⟨⟨cause | words, n', rest'⟩, hwords, heq⟩, rfl⟩
      · cases heq
      · obtain ⟨hrenamed, rfl, rfl⟩ := Ending.mk.inj heq
        obtain rfl := Except.ok.inj hrenamed
        exact ⟨words, n', hwords, ⟨words, n', hwords, rfl⟩, rfl⟩
    · rintro ⟨words, n, hwords, -, rfl⟩
      exact ⟨_, n, ⟨_, hwords, rfl⟩, rfl⟩
  · simp only [generate_eq_error_iff, hderive, Option.map_eq_some_iff]
    constructor
    · rintro ⟨n, ⟨cause | words, n', rest'⟩, hcause, heq⟩
      · obtain ⟨hrenamed, rfl, rfl⟩ := Ending.mk.inj heq
        exact ⟨cause, ⟨n', hcause⟩, Except.error.inj hrenamed⟩
      · cases heq
    · rintro ⟨cause, ⟨n, hcause⟩, rfl⟩
      exact ⟨n, _, hcause, rfl⟩

/-- Exchanges `<S>` and `<U>`, and takes all plain symbols to one. -/
def exchanged (X : Symbol) : Symbol :=
  if X.isPlain then ⟨"c"⟩
  else if X = ⟨"<S>"⟩ then ⟨"<U>"⟩
  else if X = ⟨"<U>"⟩ then ⟨"<S>"⟩
  else X

theorem exchanged_of_ne {X : Symbol} (hX : X.isBracketed = true) (hS : X ≠ ⟨"<S>"⟩)
    (hU : X ≠ ⟨"<U>"⟩) : exchanged X = X := by
  simp [exchanged, isPlain_eq_false hX, hS, hU]

theorem exchanged_exchanged {X : Symbol} (hX : X.isBracketed = true) :
    exchanged (exchanged X) = X := by
  by_cases hS : X = ⟨"<S>"⟩
  · rw [hS]
    decide
  · by_cases hU : X = ⟨"<U>"⟩
    · rw [hU]
      decide
    · rw [exchanged_of_ne hX hS hU, exchanged_of_ne hX hS hU]

theorem isBracketed_exchanged (X : Symbol) : (exchanged X).isBracketed = X.isBracketed := by
  cases hX : X.isBracketed with
  | false =>
      have hplain : X.isPlain = true := by simp [Symbol.isPlain, hX]
      rw [exchanged, if_pos hplain]
      decide
  | true =>
      by_cases hS : X = ⟨"<S>"⟩
      · rw [hS]
        decide
      · by_cases hU : X = ⟨"<U>"⟩
        · rw [hU]
          decide
        · rw [exchanged_of_ne hX hS hU, hX]

theorem isRenaming_exchanged : Symbol.IsRenaming exchanged where
  isBracketed_eq := isBracketed_exchanged
  eq_of_eq X Y hX hY h := by rw [← exchanged_exchanged hX, h, exchanged_exchanged hY]

/-- `<U>` has no entry, and `a` is no bracketed head. -/
def gapBehindS : Table :=
  .ofList [(⟨"<S>"⟩, [[⟨"a"⟩, ⟨"b"⟩, ⟨"<T>"⟩], [⟨"<U>"⟩]]), (⟨"a"⟩, [[⟨"<S>"⟩]]),
    (⟨"<T>"⟩, [[⟨"b"⟩], []])]

theorem generate_rename_exchanged :
    Symbol.IsRenaming exchanged ∧
    generate (gapBehindS.rename exchanged) none answering 9 (some ⟨"<U>"⟩) [0, 0] =
      some (.ok "c c c ", []) ∧
    generate (gapBehindS.rename exchanged) none answering 9 (some ⟨"<U>"⟩) [1] =
      some (.error (.undefined ⟨"<S>"⟩), []) ∧
    questions (gapBehindS.rename exchanged) (some 1) answering 9 (some ⟨"<U>"⟩) [0, 0] = [2] := by
  have hrename (limit : Option Int) (answers : List Int) :=
    generate_rename isRenaming_exchanged gapBehindS limit answering ⟨"<S>"⟩ answers 9
  refine ⟨isRenaming_exchanged, ?_, ?_, ?_⟩
  · exact ((hrename none [0, 0]).2.1 _ _).2 ⟨["a", "b", "b"], 2, rfl, rfl, rfl⟩
  · exact ((hrename none [1]).2.2.1 _ _).2 ⟨.undefined ⟨"<U>"⟩, rfl, rfl⟩
  · exact (hrename (some 1) [0, 0]).2.2.2

end Derivation

end BraceGrammar
