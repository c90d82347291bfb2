import BraceGrammar.Proofs.Course
import BraceGrammar.Proofs.Forest
import BraceGrammar.Proofs.OrderedMap
import Mathlib.Data.List.MinMax
import Mathlib.Order.Nat

/-!
# Derivations under a limit

A limit `m` leaves room for `m.toNat` expansions, so for none if it is negative.  As long as there is
room, a symbol becomes what it becomes without a limit; the first expansion beyond the room fails
(`replace_some_of_le`).

So a run under a limit goes the way of the run without one, to its end or to the place where there is
no more room (`Ends.limited_cases`).  It does come to an end: a pass of the loop leaves less pending
or takes room, of which there is only so much (`passes_le`).

The questions are at most one for each expansion (`Ends.asks`), and a run which is stopped has asked
the first questions of the run which is not.
-/

namespace BraceGrammar

/-- No body of a table is longer than a number. -/
def Table.HasBodiesWithin (T : Table) (length : Nat) : Prop :=
  ∀ X bodies body, T.bodies? X = some bodies → body ∈ bodies → body.length ≤ length

/-- The length of the longest body of a table, which is zero when there are no bodies. -/
def Table.longestBody (T : Table) : Nat :=
  ((T.entries.flatMap Prod.snd).map List.length).foldr max 0

theorem Table.mem_flatMap_entries_iff {T : Table} {body : Body} :
    body ∈ T.entries.flatMap Prod.snd ↔
      ∃ X bodies, T.bodies? X = some bodies ∧ body ∈ bodies := by
  rw [List.mem_flatMap]
  constructor
  · rintro ⟨⟨X, bodies⟩, hentry, hbody⟩
    exact ⟨X, bodies, (T.mem_entries_iff X bodies).1 hentry, hbody⟩
  · rintro ⟨X, bodies, hfind, hbody⟩
    exact ⟨(X, bodies), (T.mem_entries_iff X bodies).2 hfind, hbody⟩

theorem Table.longestBody_le_iff {T : Table} {length : Nat} :
    T.longestBody ≤ length ↔ T.HasBodiesWithin length := by
  constructor
  · intro h X bodies body hfind hbody
    have hmem : body ∈ T.entries.flatMap Prod.snd :=
      mem_flatMap_entries_iff.2 ⟨X, bodies, hfind, hbody⟩
    exact Nat.le_trans (List.le_max_of_le (List.mem_map_of_mem hmem) (Nat.le_refl _)) h
  · intro h
    refine List.max_le_of_forall_le _ _ fun n hn => ?_
    obtain ⟨body, hmem, rfl⟩ := List.mem_map.1 hn
    obtain ⟨X, bodies, hfind, hbody⟩ := mem_flatMap_entries_iff.1 hmem
    exact h X bodies body hfind hbody

namespace Derivation

variable {σ : Type} {T : Table} {limit : Option Int} {ask : Nat → σ → Int × σ}

/-! ## One symbol under a limit -/

section Replace

variable {X : Symbol} {n : Nat} {source : σ} {m : Int}

theorem exceeded?_some (m : Int) (n : Nat) :
    exceeded? (some m) (n + 1) = if n + 1 ≤ m.toNat then none else some m := by
  have hroom : m < ((n + 1 : Nat) : Int) ↔ ¬n + 1 ≤ m.toNat := by omega
  simp only [exceeded?, Option.filter, hroom]
  split <;> simp_all

/-- Where there is room for the expansions counted so far, a limit lets a symbol become what it
becomes without one, unless that takes more room than there is. -/
theorem replace_some_of_le (h : n ≤ m.toNat) :
    replace T (some m) ask X n source =
      if (replace T none ask X n source).expansions ≤ m.toNat then replace T none ask X n source
      else .fails (.limit m) (n + 1) source := by
  rcases replace_cases T ask X n source with ⟨hexpansions, hsame⟩ | ⟨hexpansions, hcounted⟩
  · rw [hsame, hexpansions, if_pos h]
  · rw [hcounted, hexpansions, exceeded?_some]
    by_cases hroom : n + 1 ≤ m.toNat
    · rw [if_pos hroom, if_pos hroom]
    · rw [if_neg hroom, if_neg hroom]

end Replace

/-! ## Runs under a limit -/

section Runs

variable {s t : State σ} {e : Ending σ} {m : Int}

/-- A run under a limit ends as the run without one does, and has room for all its expansions; or it
goes the same way up to where there is no more room, and the run without a limit goes on to an
expansion. -/
theorem Ends.limited_cases (h : Ends T (some m) ask s e) (hs : s.expansions ≤ m.toNat) :
    (Ends T none ask s e ∧ e.expansions ≤ m.toNat) ∨
      ∃ t, Leads T none ask s t ∧ t.expansions = m.toNat ∧
        e = ⟨.error (.limit m), m.toNat + 1, t.source⟩ ∧
        ∀ e', Ends T none ask t e' → m.toNat < e'.expansions := by
  induction h using Ends.induct_pending with
  | nil words n source => exact .inl ⟨.last (step_nil T none ask words n source), hs⟩
  | fails X pending words n source failure n' source' hfails =>
      change n ≤ m.toNat at hs
      rw [replace_some_of_le hs] at hfails
      split at hfails
      · next hroom =>
        rw [hfails] at hroom
        exact .inl ⟨ends_of_fails hfails pending words, hroom⟩
      · next hroom =>
        cases hfails
        have hn : n = m.toNat := by
          rcases replace_cases T ask X n source with ⟨hexpansions, -⟩ | ⟨hexpansions, -⟩ <;> omega
        refine .inr ⟨⟨X :: pending, words, n, source⟩, .refl _, hn, by rw [hn], fun e' he' => ?_⟩
        have hle := he'.expansions_step_le
        rw [expansions_step_cons] at hle
        omega
  | becomes X pending words n source ws symbols n' source' e hbecomes _ ih =>
      change n ≤ m.toNat at hs
      rw [replace_some_of_le hs] at hbecomes
      split at hbecomes
      · next hroom =>
        rw [hbecomes] at hroom
        have hfirst := leads_of_becomes hbecomes pending words
        rcases ih hroom with ⟨hends, hexpansions⟩ | ⟨t, hleads, hcut⟩
        · exact .inl ⟨hfirst.ends hends, hexpansions⟩
        · exact .inr ⟨t, hfirst.trans hleads, hcut⟩
      · cases hbecomes

/-- What stands in the place of a symbol is paid for by the room that the symbol takes. -/
theorem length_symbols_le {length : Nat} (hT : T.HasBodiesWithin length) {X : Symbol} {n n' : Nat}
    {source source' : σ} {ws : List String} {symbols : Body}
    (h : replace T (some m) ask X n source = .becomes ws symbols n' source') :
    symbols.length + (m.toNat - n') * length ≤ (m.toNat - n) * length := by
  rcases replace_becomes_cases h with ⟨-, -, rfl, rfl, -⟩ | ⟨-, -, rfl, hlimit, hentry⟩
  · rw [List.length_nil, Nat.zero_add]
  · have hroom : n + 1 ≤ m.toNat := by
      rw [exceeded?_some] at hlimit
      split at hlimit
      · assumption
      · cases hlimit
    have hsymbols : symbols.length ≤ length := by
      rcases hentry with ⟨-, rfl, -⟩ | ⟨bodies, index, hfind, rfl, -⟩
      · exact Nat.zero_le length
      · exact hT X bodies _ hfind (List.get_mem bodies index)
    have hbefore : m.toNat - n = m.toNat - (n + 1) + 1 := by omega
    rw [hbefore, Nat.succ_mul]
    omega

/-- Under a limit the loop has few passes: one for each symbol pending, and one for each symbol of
the bodies that there is room to put in their places. -/
theorem passes_le {length : Nat} (hT : T.HasBodiesWithin length) (ask : Nat → σ → Int × σ) (m : Int)
    (steps : Nat) (s : State σ) :
    passes T (some m) ask steps s ≤ s.pending.length + (m.toNat - s.expansions) * length := by
  induction steps generalizing s with
  | zero => exact Nat.zero_le _
  | succ steps ih =>
      obtain ⟨pending, words, n, source⟩ := s
      cases pending with
      | nil =>
          rw [passes_nil]
          exact Nat.zero_le _
      | cons X pending =>
          have hpass : passes T (some m) ask (steps + 1) ⟨X :: pending, words, n, source⟩ ≤
              pending.length + (m.toNat - n) * length + 1 := by
            refine passes_succ_cons_le fun ws symbols n' source' hbecomes => ?_
            have hpaid := length_symbols_le hT hbecomes
            have hrest := ih ⟨symbols ++ pending, ws.reverse ++ words, n', source'⟩
            rw [List.length_append] at hrest
            dsimp only at hrest
            omega
          rw [List.length_cons, Nat.add_right_comm]
          exact hpass

theorem exists_ends_of_limit (T : Table) (ask : Nat → σ → Int × σ) (m : Int) (s : State σ) :
    ∃ e, Ends T (some m) ask s e := by
  have hT : T.HasBodiesWithin T.longestBody := Table.longestBody_le_iff.1 (Nat.le_refl _)
  obtain ⟨e, he⟩ := exists_run_of_passes_lt (Nat.lt_succ_of_le (passes_le hT ask m _ s))
  exact ⟨e, ends_of_run he⟩

end Runs

/-! ## Derivations with and without a limit -/

section Derivations

variable (T : Table) (ask : Nat → σ → Int × σ) (start? : Option Symbol) (source : σ) (m : Int)

/-- A limit does nothing to a derivation, or stops it at the first expansion that there is no room
for. -/
theorem exists_endsAfter_of_limit :
    ∃ asked e, EndsAfter T (some m) ask start? source asked e ∧
      ((EndsAfter T none ask start? source asked e ∧ e.expansions ≤ m.toNat) ∨
        (e.result = .error (.limit m) ∧ asked.length ≤ m.toNat ∧
          ∀ asked' e', EndsAfter T none ask start? source asked' e' →
            m.toNat < e'.expansions ∧ asked <+: asked')) := by
  simp only [endsAfter_iff]
  obtain ⟨⟨result, n, rest, asked⟩, he⟩ :=
    exists_ends_of_limit T (recording ask) m ⟨start?.toList, [], 0, (source, [])⟩
  refine ⟨asked.reverse, ⟨result, n, rest⟩, by rwa [List.reverse_reverse], ?_⟩
  rcases he.limited_cases (Nat.zero_le _) with hsame | ⟨t, hleads, ht, hcut, hbeyond⟩
  · left
    rwa [List.reverse_reverse]
  · obtain ⟨pending, words, n', rest', asked'⟩ := t
    cases hcut
    obtain ⟨counts, hcounts, hlength, -⟩ := hleads.asks
    refine .inr ⟨rfl, ?_, fun asked' e' he' => ?_⟩
    · dsimp only at ht hcounts hlength
      rw [hcounts, List.append_nil, List.length_reverse]
      omega
    · have hends := hleads.ends_of_ends he'
      obtain ⟨more, hmore, -⟩ := hends.asks
      refine ⟨hbeyond _ hends, more.reverse, ?_⟩
      rw [← List.reverse_append, ← hmore, List.reverse_reverse]

/-- What a limit `m` does to a derivation, whatever the source answers.  If the derivation ends
without a limit, it ends in the same way under the limit and after the same questions when no more
than `m.toNat` expansions are counted.  If more are counted, or if the derivation does not end without
a limit, it fails because of the limit; then there have been at most `m.toNat` questions, and they are
the first ones of those without a limit.  An ending that is not this failure stays the same when the
limit is raised or taken away. -/
theorem limit_stops_beyond :
    (∀ asked e, EndsAfter T none ask start? source asked e →
      (e.expansions ≤ m.toNat → EndsAfter T (some m) ask start? source asked e) ∧
      (m.toNat < e.expansions → ∃ asked' e', EndsAfter T (some m) ask start? source asked' e' ∧
        e'.result = .error (.limit m) ∧ asked' <+: asked ∧ asked'.length ≤ m.toNat)) ∧
    ((∀ fuel, derive T none ask fuel start? source = none) →
      ∃ asked e, EndsAfter T (some m) ask start? source asked e ∧
        e.result = .error (.limit m) ∧ asked.length ≤ m.toNat) ∧
    ∀ asked e, EndsAfter T (some m) ask start? source asked e → e.result ≠ .error (.limit m) →
      ∀ limit, (∀ m' ∈ limit, m ≤ m') → EndsAfter T limit ask start? source asked e := by
  obtain ⟨asked, e, he, hcases⟩ := exists_endsAfter_of_limit T ask start? source m
  refine ⟨fun asked' e' he' => ⟨fun hroom => ?_, fun hbeyond => ?_⟩, fun hnever => ?_, ?_⟩
  · rcases hcases with ⟨hsame, -⟩ | ⟨-, -, hcut⟩
    · obtain ⟨rfl, rfl⟩ := hsame.unique he'
      exact he
    · have hlt := (hcut asked' e' he').1
      omega
  · rcases hcases with ⟨hsame, hroom⟩ | ⟨hresult, hlength, hcut⟩
    · obtain ⟨rfl, rfl⟩ := hsame.unique he'
      omega
    · exact ⟨asked, e, he, hresult, (hcut asked' e' he').2, hlength⟩
  · rcases hcases with ⟨⟨fuel, hderive, -⟩, -⟩ | ⟨hresult, hlength, -⟩
    · rw [hnever fuel] at hderive
      cases hderive
    · exact ⟨asked, e, he, hresult, hlength⟩
  · intro asked' e' he' hresult' limit hlimit
    obtain ⟨rfl, rfl⟩ := he.unique he'
    rcases hcases with ⟨hsame, hroom⟩ | ⟨hresult, -⟩
    · cases limit with
      | none => exact hsame
      | some m' =>
          -- there is also room under `m'`, so that limit does nothing either
          obtain ⟨asked'', e'', he'', hcases'⟩ := exists_endsAfter_of_limit T ask start? source m'
          rcases hcases' with ⟨hsame', -⟩ | ⟨-, -, hcut⟩
          · obtain ⟨rfl, rfl⟩ := hsame'.unique hsame
            exact he''
          · have hlt := (hcut asked e hsame).1
            have hle := hlimit m' rfl
            omega
    · exact absurd hresult hresult'

/-- An `a`, after any number of expansions, or never. -/
def delayedA : Table := .ofList [(⟨"<S>"⟩, [[⟨"a"⟩], [⟨"<S>"⟩]])]

/-- There is room for all three expansions, or for two of them; or there are too many for any room,
and there is none. -/
theorem limit_stops_delayedA :
    (EndsAfter delayedA none answering (some ⟨"<S>"⟩) [1, 1, 0] [2, 2, 2] ⟨.ok ["a"], 3, []⟩ ∧
      EndsAfter delayedA (some 3) answering (some ⟨"<S>"⟩) [1, 1, 0] [2, 2, 2]
        ⟨.ok ["a"], 3, []⟩ ∧
      EndsAfter delayedA (some 4) answering (some ⟨"<S>"⟩) [1, 1, 0] [2, 2, 2]
        ⟨.ok ["a"], 3, []⟩) ∧
    (∃ asked e, EndsAfter delayedA (some 2) answering (some ⟨"<S>"⟩) [1, 1, 0] asked e ∧
      e.result = .error (.limit 2) ∧ asked <+: [2, 2, 2] ∧ asked.length ≤ 2) ∧
    (∀ fuel, derive delayedA none (fun _ s => (1, s)) fuel (some ⟨"<S>"⟩) () = none) ∧
    ∃ asked e, EndsAfter delayedA (some (-1)) (fun _ s => (1, s)) (some ⟨"<S>"⟩) () asked e ∧
      e.result = .error (.limit (-1)) ∧ asked.length ≤ 0 := by
  have hends : EndsAfter delayedA none answering (some ⟨"<S>"⟩) [1, 1, 0] [2, 2, 2]
      ⟨.ok ["a"], 3, []⟩ := ⟨9, rfl, rfl⟩
  have hnever (fuel : Nat) :
      derive delayedA none (fun _ s => (1, s)) fuel (some ⟨"<S>"⟩) () = none := by
    have hrun (n : Nat) : run delayedA none (fun _ s => (1, s)) fuel ⟨[⟨"<S>"⟩], [], n, ()⟩ = none := by
      induction fuel generalizing n with
      | zero => rfl
      | succ fuel ih => exact ih (n + 1)
    exact hrun 0
  obtain ⟨hthree, -, hmore⟩ := limit_stops_beyond delayedA answering (some ⟨"<S>"⟩) [1, 1, 0] 3
  obtain ⟨htwo, -, -⟩ := limit_stops_beyond delayedA answering (some ⟨"<S>"⟩) [1, 1, 0] 2
  obtain ⟨-, hnone, -⟩ :=
    limit_stops_beyond delayedA (fun _ s => (1, s)) (some ⟨"<S>"⟩) () (-1)
  have hsame := (hthree _ _ hends).1 (by decide)
  exact ⟨⟨hends, hsame, hmore _ _ hsame (by simp) (some 4) (by simp)⟩,
    (htwo _ _ hends).2 (by decide), hnever, hnone hnever⟩

/-! ## The course of a derivation under a limit -/

/-- There is room for each question. -/
theorem length_questions_le (steps : Nat) :
    (questions T (some m) ask steps start? source).length ≤ m.toNat := by
  obtain ⟨asked, e, he, hcases⟩ := exists_endsAfter_of_limit T ask start? source m
  refine Nat.le_trans (questions_isPrefix he steps).length_le ?_
  rcases hcases with ⟨-, hroom⟩ | ⟨-, hlength, -⟩
  · exact Nat.le_trans he.length_le hroom
  · exact hlength

/-- A limit `m` ends every derivation, whatever the table is like and whatever the source answers.
The loop has at most one pass for the start symbol and one for each symbol of `m.toNat` bodies that
are as long as the longest.  There are at most `m.toNat` questions, each for the bodies of an entry,
of which there are some. -/
theorem limit_bounds_course :
    (∃ fuel e, derive T (some m) ask fuel start? source = some e) ∧
    ∀ steps,
      passes T (some m) ask steps ⟨start?.toList, [], 0, source⟩ ≤ 1 + m.toNat * T.longestBody ∧
      (questions T (some m) ask steps start? source).length ≤ m.toNat ∧
      ∀ n ∈ questions T (some m) ask steps start? source,
        1 ≤ n ∧ ∃ X bodies, T.bodies? X = some bodies ∧ n = bodies.length := by
  refine ⟨?_, fun steps => ⟨?_, length_questions_le T ask start? source m steps, ?_⟩⟩
  · obtain ⟨e, he⟩ := exists_ends_of_limit T ask m ⟨start?.toList, [], 0, source⟩
    obtain ⟨fuel, hderive⟩ := (exists_derive_iff T (some m) ask start? source e).2 he
    exact ⟨fuel, e, hderive⟩
  · have hpasses := passes_le (Table.longestBody_le_iff.1 (Nat.le_refl T.longestBody)) ask m steps
      ⟨start?.toList, [], 0, source⟩
    have hstart : start?.toList.length ≤ 1 := by cases start? <;> simp
    exact Nat.le_trans hpasses (Nat.add_le_add_right hstart _)
  · exact fun n hn => exists_bodies_of_mem_questions hn

/-- One `a` after the other. -/
def endlessA : Table := .ofList [(⟨"<S>"⟩, [[⟨"a"⟩, ⟨"<S>"⟩], []])]

/-- When the end is never chosen, the loop has all the passes that a limit allows. -/
theorem limit_bounds_endlessA :
    passes endlessA (some 2) (fun _ s => (0, s)) 9 ⟨[⟨"<S>"⟩], [], 0, ()⟩ = 5 ∧
      5 ≤ 1 + (2 : Int).toNat * endlessA.longestBody ∧ endlessA.longestBody = 2 ∧
      questions endlessA (some 2) (fun _ s => (0, s)) 9 (some ⟨"<S>"⟩) () = [2, 2] ∧
      [2, 2].length ≤ (2 : Int).toNat ∧
      1 ≤ 2 ∧ ∃ X bodies, endlessA.bodies? X = some bodies ∧ 2 = bodies.length := by
  have hpasses : passes endlessA (some 2) (fun _ s => (0, s)) 9 ⟨[⟨"<S>"⟩], [], 0, ()⟩ = 5 := rfl
  have hquestions :
      questions endlessA (some 2) (fun _ s => (0, s)) 9 (some ⟨"<S>"⟩) () = [2, 2] := rfl
  obtain ⟨-, hcourse⟩ := limit_bounds_course endlessA (fun _ s => (0, s)) (some ⟨"<S>"⟩) () 2
  obtain ⟨hfew, hlength, hasked⟩ := hcourse 9
  rw [hquestions] at hlength hasked
  exact ⟨hpasses, hpasses ▸ hfew, rfl, hquestions, hlength, hasked 2 (by simp)⟩

end Derivations

end Derivation

end BraceGrammar
