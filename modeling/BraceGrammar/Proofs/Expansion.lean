import BraceGrammar.Derivation.Expansion
import BraceGrammar.Proofs.Run

/-!
# Derivations expand by recursion

A derivation with its list of pending symbols and the recursion `expandWithin` come to the same.

From the derivation to the recursion the proof is an induction on the run: what is pending, expanded
symbol by symbol, gives the rest of the sentence (`exists_expandEach_of_ends`).  From the recursion
to the derivation it is an induction on the depth: an expanded symbol leads past itself, whatever is
pending behind it, or ends the run with its failure (`continues_expandWithin`).
-/

namespace BraceGrammar

namespace Derivation

variable {σ : Type}

/-! ## Endings in sequence -/

/-- An ending with words before its own. -/
def Ending.after (words : List String) (e : Ending σ) : Ending σ :=
  { e with result := e.result.map (words ++ ·) }

@[simp] theorem Ending.after_ok (words ws : List String) (n : Nat) (source : σ) :
    (⟨.ok ws, n, source⟩ : Ending σ).after words = ⟨.ok (words ++ ws), n, source⟩ := rfl

@[simp] theorem Ending.after_error (words : List String) (failure : Failure) (n : Nat)
    (source : σ) :
    (⟨.error failure, n, source⟩ : Ending σ).after words = ⟨.error failure, n, source⟩ := rfl

theorem Ending.after_nil (e : Ending σ) : e.after [] = e := by
  obtain ⟨failure | ws, n, source⟩ := e <;> rfl

theorem map_after_nil (e : Option (Ending σ)) : e.map (·.after []) = e := by
  have hid : (fun e : Ending σ => e.after []) = id := funext Ending.after_nil
  rw [hid, Option.map_id, id_eq]

theorem Ending.after_after (xs ys : List String) (e : Ending σ) :
    (e.after ys).after xs = e.after (xs ++ ys) := by
  obtain ⟨failure | ws, n, source⟩ := e
  · rfl
  · simp

/-- Goes on after an ending that is no failure. -/
def andThen (first : Option (Ending σ)) (others : Nat → σ → Option (Ending σ)) :
    Option (Ending σ) :=
  match first with
  | none => none
  | some ⟨.error failure, n, source⟩ => some ⟨.error failure, n, source⟩
  | some ⟨.ok words, n, source⟩ => (others n source).map (·.after words)

theorem andThen_assoc (first : Option (Ending σ)) (second third : Nat → σ → Option (Ending σ)) :
    andThen (andThen first second) third =
      andThen first fun n source => andThen (second n source) third := by
  obtain _ | ⟨failure | words, n, source⟩ := first
  · rfl
  · rfl
  · simp only [andThen]
    obtain _ | ⟨failure | words', n', source'⟩ := second n source
    · rfl
    · rfl
    · simp [Function.comp_def, Ending.after_after]

theorem andThen_map_after (words : List String) (first : Option (Ending σ))
    (others : Nat → σ → Option (Ending σ)) :
    andThen (first.map (·.after words)) others = (andThen first others).map (·.after words) := by
  obtain _ | ⟨failure | ws, n, source⟩ := first
  · rfl
  · rfl
  · simp [andThen, Function.comp_def, Ending.after_after]

theorem andThen_mono {first first' : Option (Ending σ)} {others others' : Nat → σ → Option (Ending σ)}
    (hfirst : ∀ e, first = some e → first' = some e)
    (hothers : ∀ n source e, others n source = some e → others' n source = some e) {e : Ending σ}
    (h : andThen first others = some e) : andThen first' others' = some e := by
  obtain _ | ⟨failure | words, n, source⟩ := first
  · cases h
  · rw [hfirst _ rfl]
    exact h
  · rw [hfirst _ rfl]
    obtain ⟨e', he', rfl⟩ := Option.map_eq_some_iff.1 h
    rw [andThen, hothers n source e' he', Option.map_some]

/-! ## The recursion -/

section Recursion

variable {expandOne expandOne' : Symbol → Nat → σ → Option (Ending σ)}

theorem expandEach_cons (X : Symbol) (rest : Body) (n : Nat) (source : σ) :
    expandEach expandOne (X :: rest) n source =
      andThen (expandOne X n source) (expandEach expandOne rest) := by
  rw [expandEach]
  obtain _ | ⟨failure | words, n', source'⟩ := expandOne X n source <;> rfl

theorem expandEach_singleton (X : Symbol) (n : Nat) (source : σ) :
    expandEach expandOne [X] n source = expandOne X n source := by
  rw [expandEach_cons]
  obtain _ | ⟨failure | words, n', source'⟩ := expandOne X n source
  · rfl
  · rfl
  · simp [andThen, expandEach_nil]

theorem expandEach_append (xs ys : Body) (n : Nat) (source : σ) :
    expandEach expandOne (xs ++ ys) n source =
      andThen (expandEach expandOne xs n source) (expandEach expandOne ys) := by
  induction xs generalizing n source with
  | nil => rw [List.nil_append, expandEach_nil, andThen, map_after_nil]
  | cons X xs ih =>
      rw [List.cons_append, expandEach_cons, expandEach_cons, andThen_assoc]
      exact congrArg _ (funext fun n => funext fun source => ih n source)

theorem expandEach_mono (h : ∀ X n source e, expandOne X n source = some e →
      expandOne' X n source = some e) {xs : Body} {n : Nat} {source : σ} {e : Ending σ}
    (he : expandEach expandOne xs n source = some e) :
    expandEach expandOne' xs n source = some e := by
  induction xs generalizing n source e with
  | nil => exact he
  | cons X xs ih =>
      rw [expandEach_cons] at he ⊢
      exact andThen_mono (h X n source) (fun _ _ _ => ih) he

variable {T : Table} {limit : Option Int} {ask : Nat → σ → Int × σ}

/-- What becomes of a symbol is expanded in its place, one level deeper. -/
theorem expandWithin_succ (depth : Nat) (X : Symbol) (n : Nat) (source : σ) :
    expandWithin T limit ask (depth + 1) X n source =
      match replace T limit ask X n source with
      | .becomes words symbols n source =>
        (expandEach (expandWithin T limit ask depth) symbols n source).map (·.after words)
      | .fails failure n source => some ⟨.error failure, n, source⟩ := by
  rw [expandWithin]
  unfold replace
  split
  · rfl
  · cases T.bodies? X with
    | none => rfl
    | some bodies =>
        dsimp only
        cases exceeded? limit (n + 1) with
        | some bound => rfl
        | none =>
            dsimp only
            split
            · rfl
            · cases bodyAt? bodies (ask bodies.length source).1 with
              | none => rfl
              | some body =>
                  dsimp only
                  rw [map_after_nil]

theorem expandWithin_mono {depth : Nat} {X : Symbol} {n : Nat} {source : σ} {e : Ending σ}
    (h : expandWithin T limit ask depth X n source = some e) :
    expandWithin T limit ask (depth + 1) X n source = some e := by
  induction depth generalizing X n source e with
  | zero => cases h
  | succ depth ih =>
      rw [expandWithin_succ] at h ⊢
      split at h
      · obtain ⟨e', he', rfl⟩ := Option.map_eq_some_iff.1 h
        rw [expandEach_mono (fun _ _ _ _ => ih) he', Option.map_some]
      · exact h

/-! ## From the derivation to the recursion -/

/-- A run that ends has expanded what was pending, after the words it had. -/
theorem exists_expandEach_of_ends {s : State σ} {e : Ending σ} (h : Ends T limit ask s e) :
    ∃ depth e', expandEach (expandWithin T limit ask depth) s.pending s.expansions s.source =
      some e' ∧ e = e'.after s.words.reverse := by
  induction h using Ends.induct_pending with
  | nil words n source =>
      refine ⟨0, ⟨.ok [], n, source⟩, rfl, ?_⟩
      rw [Ending.after_ok, List.append_nil]
  | fails X pending words n source failure n' source' hfails =>
      refine ⟨1, ⟨.error failure, n', source'⟩, ?_, rfl⟩
      rw [expandEach_cons, expandWithin_succ, hfails]
      rfl
  | becomes X pending words n source ws symbols n' source' e hbecomes _ ih =>
      obtain ⟨depth, e', he', rfl⟩ := ih
      refine ⟨depth + 1, e'.after ws, ?_, ?_⟩
      · -- one level deeper, what is pending behind `X` expands as before
        have hdeeper : andThen (expandEach (expandWithin T limit ask depth) symbols n' source')
            (expandEach (expandWithin T limit ask (depth + 1)) pending) = some e' := by
          rw [expandEach_append] at he'
          exact andThen_mono (fun _ he => he)
            (fun _ _ _ => expandEach_mono fun _ _ _ _ => expandWithin_mono) he'
        rw [expandEach_cons, expandWithin_succ, hbecomes]
        dsimp only
        rw [andThen_map_after, hdeeper, Option.map_some]
      · rw [Ending.after_after, List.reverse_append, List.reverse_reverse]

/-! ## From the recursion to the derivation -/

variable (T limit ask) in
/-- Whatever is pending behind them, and whatever words came before, some symbols lead past
themselves or end the run. -/
def Continues (symbols : Body) (n : Nat) (source : σ) (e : Ending σ) : Prop :=
  ∀ pending words,
    match e.result with
    | .ok ws =>
      Leads T limit ask ⟨symbols ++ pending, words, n, source⟩
        ⟨pending, ws.reverse ++ words, e.expansions, e.source⟩
    | .error _ => Ends T limit ask ⟨symbols ++ pending, words, n, source⟩ e

theorem continues_of_leads {xs ys : Body} {n n' : Nat} {source source' : σ} {ws : List String}
    (hfirst : ∀ pending words, Leads T limit ask ⟨xs ++ pending, words, n, source⟩
      ⟨ys ++ pending, ws.reverse ++ words, n', source'⟩) {e : Ending σ}
    (hothers : Continues T limit ask ys n' source' e) :
    Continues T limit ask xs n source (e.after ws) := by
  intro pending words
  have hothers := hothers pending (ws.reverse ++ words)
  obtain ⟨failure | ws', n'', source''⟩ := e
  · exact (hfirst pending words).ends hothers
  · have hwords : (ws ++ ws').reverse ++ words = ws'.reverse ++ (ws.reverse ++ words) := by
      rw [List.reverse_append, List.append_assoc]
    rw [Ending.after_ok]
    dsimp only
    rw [hwords]
    exact (hfirst pending words).trans hothers

theorem continues_cons {X : Symbol} {xs : Body} {n n' : Nat} {source source' : σ}
    {ws : List String} (hX : Continues T limit ask [X] n source ⟨.ok ws, n', source'⟩)
    {e : Ending σ} (hxs : Continues T limit ask xs n' source' e) :
    Continues T limit ask (X :: xs) n source (e.after ws) :=
  continues_of_leads (fun pending words => hX (xs ++ pending) words) hxs

theorem continues_expandEach {expandOne : Symbol → Nat → σ → Option (Ending σ)}
    (hone : ∀ X n source e, expandOne X n source = some e → Continues T limit ask [X] n source e)
    {xs : Body} {n : Nat} {source : σ} {e : Ending σ}
    (h : expandEach expandOne xs n source = some e) : Continues T limit ask xs n source e := by
  induction xs generalizing n source e with
  | nil =>
      obtain rfl := Option.some.inj h
      exact fun pending words => .refl _
  | cons X xs ih =>
      rw [expandEach_cons] at h
      cases hfirst : expandOne X n source with
      | none =>
          rw [hfirst] at h
          cases h
      | some first =>
          have hX := hone X n source first hfirst
          obtain ⟨failure | ws, n', source'⟩ := first
          · rw [hfirst] at h
            obtain rfl := Option.some.inj h
            exact fun pending words => hX (xs ++ pending) words
          · rw [hfirst] at h
            obtain ⟨e', he', rfl⟩ := Option.map_eq_some_iff.1 h
            exact continues_cons hX (ih he')

theorem continues_expandWithin {depth : Nat} {X : Symbol} {n : Nat} {source : σ} {e : Ending σ}
    (h : expandWithin T limit ask depth X n source = some e) :
    Continues T limit ask [X] n source e := by
  induction depth generalizing X n source e with
  | zero => cases h
  | succ depth ih =>
      rw [expandWithin_succ] at h
      cases hreplace : replace T limit ask X n source with
      | fails failure n' source' =>
          rw [hreplace] at h
          obtain rfl := Option.some.inj h
          exact fun pending words => ends_of_fails hreplace pending words
      | becomes ws symbols n' source' =>
          rw [hreplace] at h
          obtain ⟨e', he', rfl⟩ := Option.map_eq_some_iff.1 h
          exact continues_of_leads (leads_of_becomes hreplace)
            (continues_expandEach (fun _ _ _ _ => ih) he')

/-- A derivation ends as the expansion of its start symbol does. -/
theorem ends_iff_expandWithin (S : Symbol) (source : σ) (e : Ending σ) :
    Ends T limit ask ⟨[S], [], 0, source⟩ e ↔
      ∃ depth, expandWithin T limit ask depth S 0 source = some e := by
  constructor
  · intro h
    obtain ⟨depth, e', he', rfl⟩ := exists_expandEach_of_ends h
    rw [expandEach_singleton] at he'
    exact ⟨depth, he'.trans (congrArg some e'.after_nil.symm)⟩
  · rintro ⟨depth, h⟩
    have hcontinues := continues_expandWithin h [] []
    obtain ⟨failure | ws, n, source'⟩ := e
    · exact hcontinues
    · have hlast : Ends T limit ask ⟨[], ws.reverse ++ [], n, source'⟩ ⟨.ok ws, n, source'⟩ := by
        refine .last ?_
        rw [step_nil, List.append_nil, List.reverse_reverse]
      exact Leads.ends hcontinues hlast

end Recursion

/-! ## Sentences -/

section Sentences

variable (T : Table) (limit : Option Int) (ask : Nat → σ → Int × σ)

/-- The text that a symbol expands to, each word followed by a blank, or what goes wrong; with the
state in which the source is left. -/
def expandText (depth : Nat) (S : Symbol) (source : σ) : Option (Except Failure String × σ) :=
  (expandWithin T limit ask depth S 0 source).map fun e => (e.result.map sentence, e.source)

theorem exists_generate_iff_exists_expandText (S : Symbol) (source : σ)
    (answer : Except Failure String × σ) :
    (∃ fuel, generate T limit ask fuel (some S) source = some answer) ↔
      ∃ depth, expandText T limit ask depth S source = some answer := by
  rw [exists_generate_iff]
  constructor
  · rintro ⟨e, he, hanswer⟩
    obtain ⟨depth, hdepth⟩ := (ends_iff_expandWithin S source e).1 he
    exact ⟨depth, Option.map_eq_some_iff.2 ⟨e, hdepth, hanswer⟩⟩
  · rintro ⟨depth, h⟩
    obtain ⟨e, he, hanswer⟩ := Option.map_eq_some_iff.1 h
    exact ⟨e, (ends_iff_expandWithin S source e).2 ⟨depth, he⟩, hanswer⟩

/-- A derivation from a symbol gives the text or the failure that the symbol expands to, and ends
just when the expansion does.  With a source that also keeps its questions, they are the same too. -/
theorem generate_iff_expandText (S : Symbol) (source : σ) :
    (∀ answer, (∃ fuel, generate T limit ask fuel (some S) source = some answer) ↔
      ∃ depth, expandText T limit ask depth S source = some answer) ∧
    ∀ answer, (∃ fuel,
        generate T limit (recording ask) fuel (some S) (source, []) = some answer) ↔
      ∃ depth, expandText T limit (recording ask) depth S (source, []) = some answer :=
  ⟨exists_generate_iff_exists_expandText T limit ask S source,
    exists_generate_iff_exists_expandText T limit (recording ask) S (source, [])⟩

end Sentences

end Derivation

end BraceGrammar
