import BraceGrammar.Choice.Source
import BraceGrammar.Proofs.Course
import BraceGrammar.Proofs.Reachable

/-!
# Failures of a derivation

A symbol fails for one of three reasons (`replace_fails_cases`): it has no entry, it is an expansion
too many, or the source answers with no index of a body.  A run that fails has come to a symbol that
fails (`Ends.exists_fails`), and what a run comes to is reachable from what was pending.

A source that keeps to the numbers of bodies rules the last reason out, along a whole run
(`Ends.failure_cases`).  The seeded sources do so, whatever their seed.
-/

namespace BraceGrammar

namespace Derivation

variable {σ : Type} {T : Table} {limit : Option Int} {ask : Nat → σ → Int × σ}

/-! ## One symbol -/

section Replace

variable {X : Symbol} {n n' : Nat} {source source' : σ} {failure : Failure}

/-- A symbol that fails is bracketed.  It has no entry, or is counted and exceeds the limit, or the
source gives an answer for its bodies that is no index. -/
theorem replace_fails_cases (h : replace T limit ask X n source = .fails failure n' source') :
    X.isBracketed = true ∧
      ((T.bodies? X = none ∧ failure = .undefined X) ∨
        ∃ bodies, T.bodies? X = some bodies ∧
          ((∃ bound, exceeded? limit (n + 1) = some bound ∧ failure = .limit bound) ∨
            (bodies ≠ [] ∧ bodyAt? bodies (ask bodies.length source).1 = none ∧
              failure = .outOfRange (ask bodies.length source).1 bodies.length))) := by
  unfold replace at h
  split at h
  · cases h
  · next hplain =>
    refine ⟨by simpa [Symbol.isPlain] using hplain, ?_⟩
    split at h
    · next hfind =>
      cases h
      exact .inl ⟨hfind, rfl⟩
    · next bodies hfind =>
      refine .inr ⟨bodies, hfind, ?_⟩
      split at h
      · next bound hlimit =>
        cases h
        exact .inl ⟨bound, hlimit, rfl⟩
      · split at h
        · cases h
        · next hbodies =>
          split at h
          · next hbody =>
            cases h
            exact .inr ⟨hbodies, hbody, rfl⟩
          · cases h

theorem exceeded?_eq_some {count : Nat} {bound : Int} (h : exceeded? limit count = some bound) :
    limit = some bound :=
  (Option.filter_eq_some_iff.1 h).1

end Replace

/-! ## Sources that keep to the numbers of bodies -/

/-- In states of a kind, a source that is asked with some bodies answers with the index of one, and
stays in states of this kind. -/
def KeepsRange (ask : Nat → σ → Int × σ) (kind : σ → Prop) : Prop :=
  ∀ source, kind source → ∀ n, n ≠ 0 →
    0 ≤ (ask n source).1 ∧ (ask n source).1 < n ∧ kind (ask n source).2

variable {kind : σ → Prop}

theorem KeepsRange.exists_bodyAt? (hask : KeepsRange ask kind) {source : σ} (hkind : kind source)
    {bodies : List Body} (hbodies : bodies ≠ []) :
    ∃ body, bodyAt? bodies (ask bodies.length source).1 = some body := by
  have hlength : bodies.length ≠ 0 := fun h => hbodies (List.length_eq_zero_iff.1 h)
  obtain ⟨hnonneg, hlt, -⟩ := hask source hkind bodies.length hlength
  exact ⟨_, bodyAt?_eq_some_iff.2
    ⟨⟨(ask bodies.length source).1.toNat, by omega⟩, (Int.toNat_of_nonneg hnonneg).symm, rfl⟩⟩

theorem KeepsRange.kind_of_becomes (hask : KeepsRange ask kind) {X : Symbol} {n n' : Nat}
    {source source' : σ} {ws : List String} {symbols : Body} (hkind : kind source)
    (h : replace T limit ask X n source = .becomes ws symbols n' source') : kind source' := by
  obtain ⟨-, -, -, -, rfl⟩ | ⟨-, -, -, -, ⟨-, -, rfl⟩ | ⟨bodies, index, -, -, hindex⟩⟩ :=
    replace_becomes_cases h
  · exact hkind
  · exact hkind
  · have hlength : bodies.length ≠ 0 := Nat.ne_of_gt (Nat.zero_lt_of_lt index.isLt)
    have hnext := (hask source hkind bodies.length hlength).2.2
    rwa [hindex] at hnext

theorem KeepsRange.kind_of_leads (hask : KeepsRange ask kind) {s t : State σ}
    (h : Leads T limit ask s t) (hkind : kind s.source) : kind t.source :=
  h.keeps (motive := fun u => kind u.source)
    (fun _ _ _ _ _ _ _ _ _ hbecomes hkind => hask.kind_of_becomes hkind hbecomes) hkind

/-! ## Runs -/

section Runs

variable {s : State σ} {e : Ending σ} {failure : Failure}

/-- A run that fails has come to a bracketed symbol without an entry, which is reachable from what was
pending; or the limit is exceeded; or the source has been asked for some bodies and has answered with
no index of one. -/
theorem Ends.failure_cases (h : Ends T limit ask s e) (hresult : e.result = .error failure) :
    (∃ X : Symbol, X.isBracketed = true ∧ T.bodies? X = none ∧
      (∃ Y ∈ s.pending, Reachable T Y X) ∧ failure = .undefined X) ∨
    (∃ bound, limit = some bound ∧ failure = .limit bound) ∨
    ∃ t bodies, Leads T limit ask s t ∧ bodies ≠ [] ∧
      bodyAt? bodies (ask bodies.length t.source).1 = none ∧
      failure = .outOfRange (ask bodies.length t.source).1 bodies.length := by
  obtain ⟨X, pending, words, n, source, hleads, hfails⟩ := h.exists_fails hresult
  obtain ⟨hX, ⟨hfind, rfl⟩ | ⟨bodies, -, ⟨bound, hlimit, rfl⟩ | ⟨hbodies, hnone, rfl⟩⟩⟩ :=
    replace_fails_cases hfails
  · exact .inl ⟨X, hX, hfind, hleads.exists_reachable X List.mem_cons_self, rfl⟩
  · exact .inr (.inl ⟨bound, exceeded?_eq_some hlimit, rfl⟩)
  · exact .inr (.inr ⟨_, bodies, hleads, hbodies, hnone, rfl⟩)

/-- With a source that keeps to the numbers of bodies, only a symbol without an entry and the limit
make a run fail. -/
theorem KeepsRange.failure_cases (hask : KeepsRange ask kind) (hkind : kind s.source)
    (h : Ends T limit ask s e) (hresult : e.result = .error failure) :
    (∃ X : Symbol, X.isBracketed = true ∧ T.bodies? X = none ∧
      (∃ Y ∈ s.pending, Reachable T Y X) ∧ failure = .undefined X) ∨
    ∃ bound, limit = some bound ∧ failure = .limit bound := by
  rcases h.failure_cases hresult with hundefined | hlimit | ⟨t, bodies, hleads, hbodies, hnone, -⟩
  · exact .inl hundefined
  · exact .inr hlimit
  · obtain ⟨body, hbody⟩ := hask.exists_bodyAt? (hask.kind_of_leads hleads hkind) hbodies
    rw [hnone] at hbody
    cases hbody

end Runs

/-! ## Derivations -/

section Derivations

variable {start? : Option Symbol} {fuel : Nat} {source rest : σ} {failure : Failure}

theorem exists_ends_of_generate
    (h : generate T limit ask fuel start? source = some (.error failure, rest)) :
    ∃ n, Ends T limit ask ⟨start?.toList, [], 0, source⟩ ⟨.error failure, n, rest⟩ := by
  obtain ⟨n, hderive⟩ := generate_eq_error_iff.1 h
  exact ⟨n, (exists_derive_iff T limit ask start? source _).1 ⟨fuel, hderive⟩⟩

theorem failure_cases_of_generate (hask : KeepsRange ask kind) (hkind : kind source)
    (h : generate T limit ask fuel start? source = some (.error failure, rest)) :
    (∃ X : Symbol, X.isBracketed = true ∧ T.bodies? X = none ∧
      (∃ S ∈ start?.toList, Reachable T S X) ∧ failure = .undefined X) ∨
    ∃ bound, limit = some bound ∧ failure = .limit bound := by
  obtain ⟨n, hends⟩ := exists_ends_of_generate h
  exact hask.failure_cases hkind hends rfl

variable (T limit ask start?) in
/-- A derivation lacks an entry only for a bracketed symbol that is reachable from the start symbol.
If the source keeps to the numbers of bodies, its answers are always indices.  If there are entries
for all bracketed symbols that are reachable, too, a derivation that ends has given a text or exceeded
the limit.  And no source is ever asked with no bodies. -/
theorem generate_fails_only :
    (∀ fuel source rest X,
      generate T limit ask fuel start? source = some (.error (.undefined X), rest) →
        X.isBracketed = true ∧ T.bodies? X = none ∧ ∃ S, start? = some S ∧ Reachable T S X) ∧
    (∀ kind : σ → Prop, KeepsRange ask kind → ∀ source, kind source →
      (∀ fuel rest index count,
        generate T limit ask fuel start? source ≠ some (.error (.outOfRange index count), rest)) ∧
      ((∀ S X, start? = some S → Reachable T S X → X.isBracketed = true →
          ∃ bodies, T.bodies? X = some bodies) →
        ∀ fuel result rest, generate T limit ask fuel start? source = some (result, rest) →
          (∃ text, result = .ok text) ∨
            ∃ bound, limit = some bound ∧ result = .error (.limit bound))) ∧
    ∀ source steps, ∀ n ∈ questions T limit ask steps start? source, 1 ≤ n := by
  refine ⟨fun fuel source rest X h => ?_, fun kind hask source hkind => ⟨?_, ?_⟩, ?_⟩
  · obtain ⟨n, hends⟩ := exists_ends_of_generate h
    rcases hends.failure_cases rfl with ⟨Y, hY, hfind, ⟨S, hS, hreachable⟩, heq⟩ |
      ⟨bound, -, heq⟩ | ⟨t, bodies, -, -, -, heq⟩
    · obtain rfl := Failure.undefined.inj heq
      exact ⟨hY, hfind, S, Option.mem_toList.1 hS, hreachable⟩
    · cases heq
    · cases heq
  · intro fuel rest index count h
    rcases failure_cases_of_generate hask hkind h with ⟨X, -, -, -, heq⟩ | ⟨bound, -, heq⟩
    · cases heq
    · cases heq
  · intro hentries fuel result rest h
    rcases result with failure | text
    · right
      rcases failure_cases_of_generate hask hkind h with ⟨X, hX, hnone, ⟨S, hS, hreachable⟩, -⟩ |
        ⟨bound, hlimit, rfl⟩
      · obtain ⟨bodies, hfind⟩ := hentries S X (Option.mem_toList.1 hS) hreachable hX
        rw [hnone] at hfind
        cases hfind
      · exact ⟨bound, hlimit, rfl⟩
    · exact .inl ⟨text, rfl⟩
  · intro source steps n hn
    exact (exists_bodies_of_mem_questions hn).1

/-- Only `<X>` leads to a symbol without an entry. -/
def gapBehindX : Table :=
  .ofList [(⟨"<S>"⟩, [[⟨"<E>"⟩], [⟨"a"⟩, ⟨"<S>"⟩]]), (⟨"<E>"⟩, []), (⟨"<X>"⟩, [[⟨"b"⟩, ⟨"<U>"⟩]])]

theorem keepsRange_last :
    KeepsRange (fun count (s : Unit) => ((count : Int) - 1, s)) fun _ => True := by
  intro source _ n hn
  dsimp only
  exact ⟨by omega, by omega, trivial⟩

/-- A derivation from `<X>` meets the gap.  One from `<S>` has no reason to fail but its limit. -/
theorem generate_fails_only_gapBehindX :
    (generate gapBehindX none (fun count s => ((count : Int) - 1, s)) 9 (some ⟨"<X>"⟩) () =
        some (.error (.undefined ⟨"<U>"⟩), ()) ∧
      ∃ S, some ⟨"<X>"⟩ = some S ∧ Reachable gapBehindX S ⟨"<U>"⟩) ∧
    KeepsRange (fun count (s : Unit) => ((count : Int) - 1, s)) (fun _ => True) ∧
    (∀ S X, some ⟨"<S>"⟩ = some S → Reachable gapBehindX S X → X.isBracketed = true →
      ∃ bodies, gapBehindX.bodies? X = some bodies) ∧
    generate gapBehindX (some 2) (fun count s => ((count : Int) - 1, s)) 9 (some ⟨"<S>"⟩) () =
      some (.error (.limit 2), ()) ∧
    ((∃ text, (.error (.limit 2) : Except Failure String) = .ok text) ∨
      ∃ bound, some 2 = some bound ∧
        (.error (.limit 2) : Except Failure String) = .error (.limit bound)) ∧
    questions gapBehindX (some 2) (fun count s => ((count : Int) - 1, s)) 9 (some ⟨"<S>"⟩) () =
      [2, 2] ∧ 1 ≤ 2 := by
  have hundefined : generate gapBehindX none (fun count s => ((count : Int) - 1, s)) 9
      (some ⟨"<X>"⟩) () = some (.error (.undefined ⟨"<U>"⟩), ()) := by rfl
  have hlimit : generate gapBehindX (some 2) (fun count s => ((count : Int) - 1, s)) 9
      (some ⟨"<S>"⟩) () = some (.error (.limit 2), ()) := by rfl
  have hasked : questions gapBehindX (some 2) (fun count s => ((count : Int) - 1, s)) 9
      (some ⟨"<S>"⟩) () = [2, 2] := by rfl
  have hentries : ∀ S X, some ⟨"<S>"⟩ = some S → Reachable gapBehindX S X → X.isBracketed = true →
      ∃ bodies, gapBehindX.bodies? X = some bodies := by
    rintro S X ⟨⟩ hX hbracketed
    have hfound : ∀ Y ∈ [⟨"<S>"⟩, ⟨"<E>"⟩, ⟨"a"⟩], Y.isBracketed = true →
        (gapBehindX.bodies? Y).isSome = true := by decide
    have hmem : X ∈ [⟨"<S>"⟩, ⟨"<E>"⟩, ⟨"a"⟩] := hX.mem_of_closed (by decide) (by decide)
    exact Option.isSome_iff_exists.1 (hfound X hmem hbracketed)
  obtain ⟨hgap, -, -⟩ := generate_fails_only gapBehindX none
    (fun count (s : Unit) => ((count : Int) - 1, s)) (some ⟨"<X>"⟩)
  obtain ⟨-, hkept, hcounts⟩ := generate_fails_only gapBehindX (some 2)
    (fun count (s : Unit) => ((count : Int) - 1, s)) (some ⟨"<S>"⟩)
  obtain ⟨-, houtcome⟩ := hkept _ keepsRange_last () trivial
  exact ⟨⟨hundefined, (hgap _ _ _ _ hundefined).2.2⟩, keepsRange_last, hentries, hlimit,
    houtcome hentries _ _ _ hlimit, hasked, hcounts () 9 2 (by simp [hasked])⟩

end Derivations

end Derivation

/-! ## Seeded sources -/

namespace Choice

def Source.IsSeeded : Source → Prop
  | .seeded _ => True
  | _ => False

theorem Source.isSeeded_ofSeed (seed : Int) : (ofSeed seed).IsSeeded := trivial

theorem Source.keepsRange_isSeeded : Derivation.KeepsRange Source.ask Source.IsSeeded := by
  intro source hseeded n hn
  cases source with
  | seeded generator =>
      cases hdrawn : generator.below? n with
      | none =>
          simp only [ask, hdrawn]
          exact ⟨Int.le_refl 0, Int.natCast_pos.2 (Nat.pos_of_ne_zero hn), trivial⟩
      | some drawn =>
          obtain ⟨index, next⟩ := drawn
          simp only [ask, hdrawn]
          exact ⟨Int.natCast_nonneg _, Int.ofNat_lt.2 (Twister.below?_lt hdrawn), trivial⟩
  | sequence => exact hseeded.elim
  | constant => exact hseeded.elim

end Choice

end BraceGrammar
