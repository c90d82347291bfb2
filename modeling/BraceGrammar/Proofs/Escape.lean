import BraceGrammar.Proofs.Course
import BraceGrammar.Proofs.Forest
import BraceGrammar.Proofs.Reachable

/-!
# Derivations that can be brought to an end

When every bracketed symbol that is reachable has a derivation tree, so has all that is pending at any
time, because that is reachable (`Leads.nonempty_forest`).  A run that has used up its answers goes
the same way when more answers follow them (`Leads.append_answers`), so the indices of a forest of
what is pending bring it to an end.

Without a derivation tree of the start symbol there is no sentence, and a limit does not change that:
a sentence under a limit is also one without (`Ends.unlimited_of_ok`).
-/

namespace BraceGrammar

namespace Derivation

variable {σ : Type} {T : Table} {limit : Option Int} {ask : Nat → σ → Int × σ} {S : Symbol}

/-! ## Forests of what is pending -/

theorem nonempty_forest_of_forall {Xs : List Symbol} (h : ∀ X ∈ Xs, Nonempty (Forest T [X])) :
    Nonempty (Forest T Xs) := by
  induction Xs with
  | nil => exact ⟨.nil⟩
  | cons X Xs ih =>
      rw [List.forall_mem_cons] at h
      obtain ⟨⟨first⟩, hothers⟩ := h
      obtain ⟨others⟩ := ih hothers
      exact ⟨first.append others⟩

/-- If all bracketed symbols that are reachable have derivation trees, there is a forest of what is
pending. -/
theorem Leads.nonempty_forest {s t : State σ} (h : Leads T limit ask s t) (hs : s.pending = [S])
    (htrees : ∀ X, Reachable T S X → X.isBracketed = true → Nonempty (Forest T [X])) :
    Nonempty (Forest T t.pending) := by
  refine nonempty_forest_of_forall fun X hX => ?_
  obtain ⟨Y, hY, hreachable⟩ := h.exists_reachable X hX
  rw [hs, List.mem_singleton] at hY
  subst hY
  by_cases hbracketed : X.isBracketed = true
  · exact htrees X hreachable hbracketed
  · have hplain : X.isPlain = true := by simpa [Symbol.isPlain] using hbracketed
    exact ⟨.plain hplain .nil⟩

/-! ## More answers -/

theorem replace_append_answers {X : Symbol} {n n' : Nat} {answers rest : List Int}
    {ws : List String} {symbols : Body}
    (h : replace T limit answering X n answers = .becomes ws symbols n' rest) (more : List Int) :
    replace T limit answering X n (answers ++ more) = .becomes ws symbols n' (rest ++ more) := by
  rcases replace_becomes_cases h with ⟨hX, rfl, rfl, rfl, rfl⟩ | ⟨hX, rfl, rfl, hlimit, hentry⟩
  · exact replace_plain hX
  · rcases hentry with ⟨hfind, rfl, rfl⟩ | ⟨bodies, index, hfind, rfl, hindex⟩
    · exact replace_childless hX hfind hlimit
    · refine replace_node hX hfind hlimit index ?_
      cases answers with
      | nil =>
          -- what comes after the last answer is no index
          have hneg : (-1 : Int) = index.val := congrArg Prod.fst hindex
          omega
      | cons answer answers =>
          obtain ⟨rfl, rfl⟩ := Prod.mk.inj hindex
          rfl

/-- A run uses up its answers in the same way when more answers follow them. -/
theorem Leads.append_answers {s t : State (List Int)} (h : Leads T limit answering s t)
    (more : List Int) :
    Leads T limit answering (s.mapSource (· ++ more)) (t.mapSource (· ++ more)) := by
  refine h.keeps (motive := fun u =>
    Leads T limit answering (s.mapSource (· ++ more)) (u.mapSource (· ++ more))) ?_ (.refl _)
  intro X pending words n source ws symbols n' source' hbecomes hleads
  exact hleads.trans (leads_of_becomes (replace_append_answers hbecomes more) pending words)

/-! ## Sentences under a limit -/

theorem replace_unlimited_of_becomes {X : Symbol} {n n' : Nat} {source source' : σ}
    {ws : List String} {symbols : Body}
    (h : replace T limit ask X n source = .becomes ws symbols n' source') :
    replace T none ask X n source = .becomes ws symbols n' source' := by
  rcases replace_cases T ask X n source with ⟨-, hsame⟩ | ⟨-, hcounted⟩
  · rwa [hsame] at h
  · rw [hcounted] at h
    split at h
    · exact h
    · cases h

theorem Ends.unlimited_of_ok {s : State σ} {e : Ending σ} (h : Ends T limit ask s e)
    {ws : List String} (hresult : e.result = .ok ws) : Ends T none ask s e := by
  induction h using Ends.induct_pending with
  | nil words n source => exact .last (step_nil T none ask words n source)
  | fails => cases hresult
  | becomes X pending words n source ws' symbols n' source' e hbecomes _ ih =>
      have hfirst := leads_of_becomes (replace_unlimited_of_becomes hbecomes) pending words
      exact hfirst.ends (ih hresult)

/-- A sentence comes of a derivation tree. -/
theorem nonempty_forest_of_generate {fuel : Nat} {source rest : σ} {text : String}
    (h : generate T limit ask fuel (some S) source = some (.ok text, rest)) :
    Nonempty (Forest T [S]) := by
  obtain ⟨⟨failure | ws, n, rest'⟩, hends, hanswer⟩ :=
    (exists_generate_iff T limit ask S source _).1 ⟨fuel, h⟩
  · cases hanswer
  · obtain ⟨f, -⟩ := ends_iff_forest.1 (hends.unlimited_of_ok rfl)
    exact ⟨f⟩

/-! ## Bringing a derivation to an end -/

variable (T S) in
/-- After some steps a derivation without a limit has used up the answers and is still running. -/
def IsUnderway (answers : List Int) : Prop :=
  ∃ steps t, after T none answering steps ⟨[S], [], 0, answers⟩ = .running t ∧ t.source = []

theorem IsUnderway.exists_isUsedUp {answers : List Int} (h : IsUnderway T S answers)
    (htrees : ∀ X, Reachable T S X → X.isBracketed = true → Nonempty (Forest T [X])) :
    ∃ more, IsUsedUp T S (answers ++ more) := by
  obtain ⟨steps, ⟨pending, words, n, source⟩, hafter, hsource⟩ := h
  have hleads := leads_of_after hafter
  obtain ⟨f⟩ := hleads.nonempty_forest rfl htrees
  have hmore := hleads.append_answers f.answers
  have hends : Ends T none answering ⟨pending, words, n, f.answers⟩
      ⟨.ok (words.reverse ++ f.words), n + f.expansions, []⟩ :=
    ends_iff_forest.2 ⟨f, askEach_answering f.length_answers, rfl, rfl⟩
  obtain rfl : source = [] := hsource
  refine ⟨f.answers, ?_⟩
  obtain ⟨fuel, hfuel⟩ := (exists_generate_iff T none answering S _ _).2 ⟨_, hmore.ends hends, rfl⟩
  exact ⟨fuel, _, hfuel⟩

/-- A list of answers that is used up consists of indices of the bodies that are asked for. -/
theorem IsUsedUp.exists_generate_recording {answers : List Int} (h : IsUsedUp T S answers) :
    ∃ fuel text asked,
      generate T none (recording answering) fuel (some S) (answers, []) =
        some (.ok text, [], asked.reverse) ∧ List.Forall₂ IsIndex answers asked := by
  obtain ⟨f, rfl⟩ := isUsedUp_iff.1 h
  obtain ⟨fuel, hfuel⟩ := exists_generate_iff_forest.2 ⟨f, f.askEach_recording_answers, rfl⟩
  exact ⟨fuel, _, f.counts, hfuel, f.forall₂_isIndex⟩

variable (T S) in
/-- Let all bracketed symbols that are reachable have derivation trees, for which they need entries.
Then whatever indices have been answered so far, some more lead a derivation without a limit to a
text.  But if the start symbol has no derivation tree, no source leads to a text, with or without a
limit. -/
theorem underway_can_end :
    ((∀ X, Reachable T S X → X.isBracketed = true → Nonempty (Forest T [X])) →
      ∀ answers, IsUnderway T S answers →
        ∃ more fuel text asked,
          generate T none (recording answering) fuel (some S) (answers ++ more, []) =
            some (.ok text, [], asked.reverse) ∧
          List.Forall₂ IsIndex (answers ++ more) asked) ∧
    (IsEmpty (Forest T [S]) →
      ∀ (σ : Type) (limit : Option Int) (ask : Nat → σ → Int × σ) (fuel : Nat) (source rest : σ)
        (text : String), generate T limit ask fuel (some S) source ≠ some (.ok text, rest)) := by
  constructor
  · intro htrees answers hunderway
    obtain ⟨more, hused⟩ := hunderway.exists_isUsedUp htrees
    exact ⟨more, hused.exists_generate_recording⟩
  · intro hempty σ limit ask fuel source rest text h
    obtain ⟨f⟩ := nonempty_forest_of_generate h
    exact hempty.false f

/-- Any number of `a`.  Behind each of them is a head without bodies. -/
def splitting : Table :=
  .ofList [(⟨"<S>"⟩, [[⟨"<S>"⟩, ⟨"<S>"⟩], [⟨"a"⟩, ⟨"<E>"⟩]]), (⟨"<E>"⟩, [])]

/-- One `b` after the other, without an end. -/
def hopeless : Table := .ofList [(⟨"<S>"⟩, [[⟨"b"⟩, ⟨"<S>"⟩]])]

theorem isEmpty_forest_hopeless : IsEmpty (Forest hopeless [⟨"<S>"⟩]) := by
  have hnotMem (Xs : List Symbol) (f : Forest hopeless Xs) : ⟨"<S>"⟩ ∉ Xs := by
    induction f with
    | nil => exact List.not_mem_nil
    | @plain X rest isPlain others ih =>
        rw [List.mem_cons]
        rintro (rfl | hmem)
        · cases isPlain
        · exact ih hmem
    | @childless X rest _ noBodies others ih =>
        rw [List.mem_cons]
        rintro (rfl | hmem)
        · cases noBodies
        · exact ih hmem
    | @node X rest bodies _ found index children others ihc iho =>
        rw [List.mem_cons]
        rintro (rfl | hmem)
        · obtain rfl : [[⟨"b"⟩, ⟨"<S>"⟩]] = bodies := Option.some.inj found
          have hbody := List.mem_singleton.1 (List.get_mem _ index)
          rw [hbody] at ihc
          exact ihc (by simp)
        · exact iho hmem
  exact ⟨fun f => hnotMem _ f List.mem_cons_self⟩

theorem underway_can_end_splitting :
    (∀ X, Reachable splitting ⟨"<S>"⟩ X → X.isBracketed = true →
      Nonempty (Forest splitting [X])) ∧
    IsUnderway splitting ⟨"<S>"⟩ [0, 0, 1] ∧
    (∃ more fuel text asked,
      generate splitting none (recording answering) fuel (some ⟨"<S>"⟩) ([0, 0, 1] ++ more, []) =
        some (.ok text, [], asked.reverse) ∧
      List.Forall₂ IsIndex ([0, 0, 1] ++ more) asked) ∧
    IsEmpty (Forest hopeless [⟨"<S>"⟩]) ∧
    ∀ fuel rest text, generate hopeless (some 3) Choice.Source.ask fuel (some ⟨"<S>"⟩) (.constant 0) ≠
      some (.ok text, rest) := by
  have htrees : ∀ X, Reachable splitting ⟨"<S>"⟩ X → X.isBracketed = true →
      Nonempty (Forest splitting [X]) := by
    intro X hX hbracketed
    have hmem : X ∈ [⟨"<S>"⟩, ⟨"a"⟩, ⟨"<E>"⟩] := hX.mem_of_closed (by decide) (by decide)
    simp only [List.mem_cons, List.not_mem_nil, or_false] at hmem
    rcases hmem with rfl | rfl | rfl
    · exact ⟨.node rfl rfl 1 (.plain rfl (.childless rfl rfl .nil)) .nil⟩
    · cases hbracketed
    · exact ⟨.childless rfl rfl .nil⟩
  have hunderway : IsUnderway splitting ⟨"<S>"⟩ [0, 0, 1] :=
    ⟨3, ⟨[⟨"a"⟩, ⟨"<E>"⟩, ⟨"<S>"⟩, ⟨"<S>"⟩], [], 3, []⟩, rfl, rfl⟩
  exact ⟨htrees, hunderway, (underway_can_end splitting ⟨"<S>"⟩).1 htrees _ hunderway,
    isEmpty_forest_hopeless,
    fun fuel rest text => (underway_can_end hopeless ⟨"<S>"⟩).2 isEmpty_forest_hopeless _ _ _ fuel _
      rest text⟩

end Derivation

end BraceGrammar
