import BraceGrammar.Derivation

/-!
# Runs of a derivation

`replace` says what becomes of one symbol, wherever it stands: words and symbols in its place, or a
failure.  A step of a derivation does that to the leftmost pending symbol (`step_cons`), whatever is
pending behind it and whatever words came before.

`Leads s t` holds when steps lead from `s` to `t`, and `Ends s e` when they lead from `s` to the
ending `e`.  A run from `s` has the ending `e`, with some fuel, just when `Ends s e`
(`exists_run_iff`), and there is only one such `e` (`Ends.unique`).
-/

namespace BraceGrammar

namespace Derivation

variable {σ : Type}

/-- What becomes of a symbol. -/
inductive Replacement (σ : Type)
  /-- Words, and symbols that stand in its place. -/
  | becomes (words : List String) (symbols : Body) (expansions : Nat) (source : σ)
  | fails (failure : Failure) (expansions : Nat) (source : σ)

section Steps

variable (T : Table) (limit : Option Int) (ask : Nat → σ → Int × σ)

/-- What becomes of a symbol, after a number of expansions and with the source in a state. -/
def replace (X : Symbol) (n : Nat) (source : σ) : Replacement σ :=
  if X.isPlain then .becomes [X.text] [] n source
  else
    match T.bodies? X with
    | none => .fails (.undefined X) n source
    | some bodies =>
      match exceeded? limit (n + 1) with
      | some bound => .fails (.limit bound) (n + 1) source
      | none =>
        if bodies = [] then .becomes [] [] (n + 1) source
        else
          match bodyAt? bodies (ask bodies.length source).1 with
          | none =>
            .fails (.outOfRange (ask bodies.length source).1 bodies.length) (n + 1)
              (ask bodies.length source).2
          | some body => .becomes [] body (n + 1) (ask bodies.length source).2

section Replace

variable {T limit ask} {X : Symbol} {n n' : Nat} {source source' : σ}

theorem isPlain_eq_false (h : X.isBracketed = true) : X.isPlain = false := by
  rw [Symbol.isPlain, h]
  rfl

theorem replace_plain (h : X.isPlain = true) :
    replace T limit ask X n source = .becomes [X.text] [] n source := by
  rw [replace, if_pos h]

theorem replace_childless (hX : X.isBracketed = true) (hfind : T.bodies? X = some [])
    (hlimit : exceeded? limit (n + 1) = none) :
    replace T limit ask X n source = .becomes [] [] (n + 1) source := by
  simp [replace, isPlain_eq_false hX, hfind, hlimit]

theorem bodyAt?_eq_some_iff {bodies : List Body} {index : Int} {body : Body} :
    bodyAt? bodies index = some body ↔
      ∃ i : Fin bodies.length, index = i.val ∧ body = bodies.get i := by
  unfold bodyAt?
  split
  · next h =>
    rw [List.getElem?_eq_some_iff]
    constructor
    · rintro ⟨hlt, rfl⟩
      exact ⟨⟨index.toNat, hlt⟩, (Int.toNat_of_nonneg h).symm, rfl⟩
    · rintro ⟨i, rfl, rfl⟩
      exact ⟨by simp, by simp⟩
  · next h =>
    constructor
    · intro hnone
      cases hnone
    · rintro ⟨i, rfl, -⟩
      exact absurd (Int.natCast_nonneg _) h

theorem replace_node {bodies : List Body} (hX : X.isBracketed = true)
    (hfind : T.bodies? X = some bodies) (hlimit : exceeded? limit (n + 1) = none)
    (index : Fin bodies.length) (hask : ask bodies.length source = ((index.val : Int), source')) :
    replace T limit ask X n source = .becomes [] (bodies.get index) (n + 1) source' := by
  have hne : bodies ≠ [] := by
    rintro rfl
    exact index.elim0
  have hbody : bodyAt? bodies index.val = some (bodies.get index) :=
    bodyAt?_eq_some_iff.2 ⟨index, rfl, rfl⟩
  simp [replace, isPlain_eq_false hX, hfind, hlimit, hne, hask, hbody]

/-- A symbol that does not fail is plain, or has an entry with no bodies, or has an entry with the
body that the source chooses. -/
theorem replace_becomes_cases {ws : List String} {symbols : Body}
    (h : replace T limit ask X n source = .becomes ws symbols n' source') :
    (X.isPlain = true ∧ ws = [X.text] ∧ symbols = [] ∧ n' = n ∧ source' = source) ∨
    (X.isBracketed = true ∧ ws = [] ∧ n' = n + 1 ∧ exceeded? limit (n + 1) = none ∧
      ((T.bodies? X = some [] ∧ symbols = [] ∧ source' = source) ∨
        ∃ (bodies : List Body) (index : Fin bodies.length), T.bodies? X = some bodies ∧
          symbols = bodies.get index ∧
          ask bodies.length source = ((index.val : Int), source'))) := by
  unfold replace at h
  split at h
  · next hplain =>
    simp only [Replacement.becomes.injEq] at h
    obtain ⟨rfl, rfl, rfl, rfl⟩ := h
    exact .inl ⟨hplain, rfl, rfl, rfl, rfl⟩
  · next hplain =>
    have hX : X.isBracketed = true := by simpa [Symbol.isPlain] using hplain
    right
    split at h
    · cases h
    · next bodies hfind =>
      split at h
      · cases h
      · next hlimit =>
        split at h
        · next hbodies =>
          simp only [Replacement.becomes.injEq] at h
          obtain ⟨rfl, rfl, rfl, rfl⟩ := h
          exact ⟨hX, rfl, rfl, hlimit, .inl ⟨hbodies ▸ hfind, rfl, rfl⟩⟩
        · split at h
          · cases h
          · next body hbody =>
            simp only [Replacement.becomes.injEq] at h
            obtain ⟨rfl, rfl, rfl, rfl⟩ := h
            obtain ⟨index, hindex, hchosen⟩ := bodyAt?_eq_some_iff.1 hbody
            exact ⟨hX, rfl, rfl, hlimit, .inr ⟨bodies, index, hfind, hchosen, by rw [← hindex]⟩⟩

end Replace

/-! ## Single steps -/

theorem step_nil (words : List String) (n : Nat) (source : σ) :
    step T limit ask ⟨[], words, n, source⟩ = .ended ⟨.ok words.reverse, n, source⟩ := rfl

theorem step_cons (X : Symbol) (pending : List Symbol) (words : List String) (n : Nat)
    (source : σ) :
    step T limit ask ⟨X :: pending, words, n, source⟩ =
      match replace T limit ask X n source with
      | .becomes ws symbols n source =>
        .running ⟨symbols ++ pending, ws.reverse ++ words, n, source⟩
      | .fails failure n source => .ended ⟨.error failure, n, source⟩ := by
  unfold replace
  simp only [step]
  split
  · rfl
  · simp only [expand]
    cases T.bodies? X with
    | none => rfl
    | some bodies =>
        dsimp only
        cases exceeded? limit (n + 1) with
        | some bound => rfl
        | none =>
            dsimp only
            split
            · rfl
            · cases bodyAt? bodies (ask bodies.length source).1 <;> rfl

/-! ## Many steps -/

/-- Steps lead from one state to another. -/
inductive Leads : State σ → State σ → Prop
  | refl (s : State σ) : Leads s s
  | next {s t u : State σ} (first : step T limit ask s = .running t) (others : Leads t u) :
      Leads s u

/-- Steps lead from a state to an ending. -/
inductive Ends : State σ → Ending σ → Prop
  | last {s : State σ} {e : Ending σ} (only : step T limit ask s = .ended e) : Ends s e
  | next {s t : State σ} {e : Ending σ} (first : step T limit ask s = .running t)
      (others : Ends t e) : Ends s e

variable {T limit ask} {s t u : State σ} {e e' : Ending σ}

theorem Leads.trans (h : Leads T limit ask s t) (h' : Leads T limit ask t u) :
    Leads T limit ask s u := by
  induction h with
  | refl => exact h'
  | next first _ ih => exact .next first (ih h')

theorem Leads.ends (h : Leads T limit ask s t) (h' : Ends T limit ask t e) :
    Ends T limit ask s e := by
  induction h with
  | refl => exact h'
  | next first _ ih => exact .next first (ih h')

theorem Ends.of_first (first : step T limit ask s = .running t) (h : Ends T limit ask s e) :
    Ends T limit ask t e := by
  cases h with
  | last only => simp [first] at only
  | next first' others =>
      rw [first, Progress.running.injEq] at first'
      exact first' ▸ others

/-- A run that ends has its ending from every state on its way. -/
theorem Leads.ends_of_ends (h : Leads T limit ask s t) (h' : Ends T limit ask s e) :
    Ends T limit ask t e := by
  induction h with
  | refl => exact h'
  | next first _ ih => exact ih (h'.of_first first)

/-- A run cannot end in two ways. -/
theorem Ends.unique (h : Ends T limit ask s e) (h' : Ends T limit ask s e') : e = e' := by
  induction h with
  | last only =>
      cases h' with
      | last only' => simpa [only] using only'
      | next first => simp [only] at first
  | next first _ ih => exact ih (h'.of_first first)

theorem ends_of_run {fuel : Nat} (h : run T limit ask fuel s = some e) :
    Ends T limit ask s e := by
  induction fuel generalizing s with
  | zero => simp [run] at h
  | succ fuel ih =>
      rw [run] at h
      split at h
      · next t ht => exact .next ht (ih h)
      · next e' he => exact .last (he.trans (congrArg _ (Option.some.inj h)))

/-- A run has an ending, with some fuel, just when steps lead to it. -/
theorem exists_run_iff : (∃ fuel, run T limit ask fuel s = some e) ↔ Ends T limit ask s e := by
  constructor
  · rintro ⟨fuel, h⟩
    exact ends_of_run h
  · intro h
    induction h with
    | last only => exact ⟨1, by rw [run, only]⟩
    | next first _ ih =>
        obtain ⟨fuel, hfuel⟩ := ih
        exact ⟨fuel + 1, by rw [run, first]; exact hfuel⟩

variable (T limit ask) in
/-- A derivation has an ending, with some fuel, just when steps lead to it from its start symbol, if
there is one. -/
theorem exists_derive_iff (start? : Option Symbol) (source : σ) (e : Ending σ) :
    (∃ fuel, derive T limit ask fuel start? source = some e) ↔
      Ends T limit ask ⟨start?.toList, [], 0, source⟩ e := by
  cases start? with
  | some S => exact exists_run_iff
  | none =>
      have hends : Ends T limit ask ⟨[], [], 0, source⟩ ⟨.ok [], 0, source⟩ := .last rfl
      constructor
      · rintro ⟨fuel, h⟩
        obtain rfl := Option.some.inj h
        exact hends
      · intro h
        exact ⟨0, congrArg some (hends.unique h)⟩

section Generate

variable {fuel : Nat} {start? : Option Symbol} {source rest : σ}

theorem generate_eq_ok_iff {text : String} :
    generate T limit ask fuel start? source = some (.ok text, rest) ↔
      ∃ words n, derive T limit ask fuel start? source = some ⟨.ok words, n, rest⟩ ∧
        sentence words = text := by
  rw [generate, Option.map_eq_some_iff]
  constructor
  · rintro ⟨⟨failure | words, n, rest'⟩, hderive, hanswer⟩
    · cases hanswer
    · obtain ⟨htext, rfl⟩ := Prod.mk.inj hanswer
      exact ⟨words, n, hderive, Except.ok.inj htext⟩
  · rintro ⟨words, n, hderive, rfl⟩
    exact ⟨_, hderive, rfl⟩

theorem generate_eq_error_iff {failure : Failure} :
    generate T limit ask fuel start? source = some (.error failure, rest) ↔
      ∃ n, derive T limit ask fuel start? source = some ⟨.error failure, n, rest⟩ := by
  rw [generate, Option.map_eq_some_iff]
  constructor
  · rintro ⟨⟨cause | words, n, rest'⟩, hderive, hanswer⟩
    · obtain ⟨hcause, rfl⟩ := Prod.mk.inj hanswer
      obtain rfl : cause = failure := Except.error.inj hcause
      exact ⟨n, hderive⟩
    · cases hanswer
  · rintro ⟨n, hderive⟩
    exact ⟨_, hderive, rfl⟩

end Generate

variable (T limit ask) in
/-- A sentence is generated, with some fuel, just when steps lead to an ending with its words. -/
theorem exists_generate_iff (S : Symbol) (source : σ) (answer : Except Failure String × σ) :
    (∃ fuel, generate T limit ask fuel (some S) source = some answer) ↔
      ∃ e, Ends T limit ask ⟨[S], [], 0, source⟩ e ∧ (e.result.map sentence, e.source) = answer := by
  constructor
  · rintro ⟨fuel, h⟩
    obtain ⟨e, he, hanswer⟩ := Option.map_eq_some_iff.1 h
    exact ⟨e, exists_run_iff.1 ⟨fuel, he⟩, hanswer⟩
  · rintro ⟨e, he, hanswer⟩
    obtain ⟨fuel, hfuel⟩ := exists_run_iff.2 he
    exact ⟨fuel, Option.map_eq_some_iff.2 ⟨e, hfuel, hanswer⟩⟩

end Steps

/-! ## One symbol at a time -/

section Symbols

variable {T : Table} {limit : Option Int} {ask : Nat → σ → Int × σ} {X : Symbol} {n n' : Nat}
  {source source' : σ} {ws : List String} {symbols : Body} {failure : Failure}

theorem leads_of_becomes (h : replace T limit ask X n source = .becomes ws symbols n' source')
    (pending : List Symbol) (words : List String) :
    Leads T limit ask ⟨X :: pending, words, n, source⟩
      ⟨symbols ++ pending, ws.reverse ++ words, n', source'⟩ := by
  refine .next ?_ (.refl _)
  rw [step_cons, h]

theorem ends_of_fails (h : replace T limit ask X n source = .fails failure n' source')
    (pending : List Symbol) (words : List String) :
    Ends T limit ask ⟨X :: pending, words, n, source⟩ ⟨.error failure, n', source'⟩ := by
  refine .last ?_
  rw [step_cons, h]

/-- A step that does not end the derivation has replaced the leftmost symbol. -/
theorem exists_becomes_of_step {s t : State σ} (h : step T limit ask s = .running t) :
    ∃ X pending words n source ws symbols n' source',
      replace T limit ask X n source = .becomes ws symbols n' source' ∧
        s = ⟨X :: pending, words, n, source⟩ ∧
        t = ⟨symbols ++ pending, ws.reverse ++ words, n', source'⟩ := by
  obtain ⟨pending, words, n, source⟩ := s
  cases pending with
  | nil => cases h
  | cons X pending =>
      rw [step_cons] at h
      split at h
      · next ws symbols n' source' hbecomes =>
        exact ⟨X, pending, words, n, source, ws, symbols, n', source', hbecomes, rfl,
          (Progress.running.inj h).symm⟩
      · cases h

/-- Induction on a run that ends: nothing is pending, or the leftmost symbol is replaced first. -/
theorem Ends.induct_pending {motive : (s : State σ) → (e : Ending σ) → Ends T limit ask s e → Prop}
    (nil : ∀ words n source h, motive ⟨[], words, n, source⟩ ⟨.ok words.reverse, n, source⟩ h)
    (fails : ∀ X pending words n source failure n' source',
      replace T limit ask X n source = .fails failure n' source' →
      ∀ h, motive ⟨X :: pending, words, n, source⟩ ⟨.error failure, n', source'⟩ h)
    (becomes : ∀ X pending words n source ws symbols n' source' e,
      replace T limit ask X n source = .becomes ws symbols n' source' →
      ∀ h', motive ⟨symbols ++ pending, ws.reverse ++ words, n', source'⟩ e h' →
      ∀ h, motive ⟨X :: pending, words, n, source⟩ e h)
    {s : State σ} {e : Ending σ} (h : Ends T limit ask s e) : motive s e h := by
  induction h with
  | @last s e only =>
      obtain ⟨pending, words, n, source⟩ := s
      cases pending with
      | nil =>
          obtain rfl := Progress.ended.inj only
          exact nil words n source _
      | cons X pending =>
          rw [step_cons] at only
          split at only
          · cases only
          · next failure n' source' hfails =>
            obtain rfl := Progress.ended.inj only
            exact fails X pending words n source failure n' source' hfails _
  | @next s t e first _ ih =>
      obtain ⟨X, pending, words, n, source, ws, symbols, n', source', hbecomes, rfl, rfl⟩ :=
        exists_becomes_of_step first
      exact becomes X pending words n source ws symbols n' source' e hbecomes _ ih _

/-- What is kept when the leftmost symbol is replaced is kept by a run. -/
theorem Leads.keeps {motive : State σ → Prop}
    (becomes : ∀ X pending words n source ws symbols n' source',
      replace T limit ask X n source = .becomes ws symbols n' source' →
      motive ⟨X :: pending, words, n, source⟩ →
      motive ⟨symbols ++ pending, ws.reverse ++ words, n', source'⟩)
    {s t : State σ} (h : Leads T limit ask s t) (hs : motive s) : motive t := by
  induction h with
  | refl => exact hs
  | @next s t u first _ ih =>
      obtain ⟨X, pending, words, n, source, ws, symbols, n', source', hbecomes, rfl, rfl⟩ :=
        exists_becomes_of_step first
      exact ih (becomes X pending words n source ws symbols n' source' hbecomes hs)

/-- A run that fails has come to a symbol that fails. -/
theorem Ends.exists_fails {s : State σ} {e : Ending σ} (h : Ends T limit ask s e)
    (hresult : e.result = .error failure) :
    ∃ X pending words n source, Leads T limit ask s ⟨X :: pending, words, n, source⟩ ∧
      replace T limit ask X n source = .fails failure e.expansions e.source := by
  induction h using Ends.induct_pending with
  | nil => cases hresult
  | fails X pending words n source cause n' source' hfails =>
      obtain rfl := Except.error.inj hresult
      exact ⟨X, pending, words, n, source, .refl _, hfails⟩
  | becomes X pending words n source ws symbols n' source' e hbecomes _ ih =>
      obtain ⟨Y, others, before, n'', source'', hleads, hfails⟩ := ih hresult
      exact ⟨Y, others, before, n'', source'', (leads_of_becomes hbecomes pending words).trans hleads,
        hfails⟩

end Symbols

end Derivation

end BraceGrammar
