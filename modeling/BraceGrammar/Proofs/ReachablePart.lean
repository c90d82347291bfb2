import BraceGrammar.Proofs.Forest
import BraceGrammar.Proofs.Image
import BraceGrammar.Proofs.Reachable
import BraceGrammar.Proofs.Simulation

/-!
# The part of a table that counts

A derivation looks up the bracketed symbols that can be reached from its start symbol, and nothing
else.  Where two tables agree on those (`AgreesFrom`), a derivation from one goes just as from the
other, step by step (`AgreesFrom.derivesAlike`): under every limit and with every source they have the
same text, the same failure or no end, after the same questions.

So the order of the heads does not count, nor do heads that are plain or cannot be reached.
-/

namespace BraceGrammar

namespace Derivation

variable {T U : Table} {S X : Symbol}

/-- A bracketed symbol that can be reached has the same bodies in the other table, or no entry in
both. -/
def AgreesFrom (T U : Table) (S : Symbol) : Prop :=
  ∀ X, Reachable T S X → X.isBracketed = true → U.bodies? X = T.bodies? X

/-- Within any number of steps, under any limit and with any source, the same has come of both
derivations, if anything has, and the same has been asked. -/
def DerivesAlike (T U : Table) (start? : Option Symbol) : Prop :=
  ∀ (σ : Type) (limit : Option Int) (ask : Nat → σ → Int × σ) (source : σ) (steps : Nat),
    generate T limit ask steps start? source = generate U limit ask steps start? source ∧
      questions T limit ask steps start? source = questions U limit ask steps start? source

/-! ## Tables that agree -/

theorem agreesFrom_of_perm (h : T.entries.Perm U.entries) (S : Symbol) : AgreesFrom T U S := by
  intro X _ _
  refine Option.ext fun bodies => ?_
  rw [← U.mem_entries_iff X bodies, ← T.mem_entries_iff X bodies, h.mem_iff]

section Insignificant

variable (hX : ¬(Reachable T S X ∧ X.isBracketed = true))

include hX

theorem ne_of_insignificant {Y : Symbol} (hY : Reachable T S Y) (hbracketed : Y.isBracketed = true) :
    Y ≠ X := by
  rintro rfl
  exact hX ⟨hY, hbracketed⟩

theorem agreesFrom_insert (bodies : List Body) : AgreesFrom T (T.insert X bodies) S := by
  intro Y hY hbracketed
  rw [Table.bodies?, OrderedMap.find?_insert, if_neg (ne_of_insignificant hX hY hbracketed)]

theorem agreesFrom_erase : AgreesFrom T (T.erase X) S := by
  intro Y hY hbracketed
  rw [Table.bodies?, OrderedMap.find?_erase, if_neg (ne_of_insignificant hX hY hbracketed)]

end Insignificant

/-! ## Derivations that agree -/

theorem renameWord_id : renameWord id = id := rfl

theorem Ending.rename_id {σ : Type} (e : Ending σ) : e.rename id = e := by
  obtain ⟨failure | words, n, source⟩ := e
  · cases failure <;> rfl
  · simp only [Ending.rename, Except.map, Except.mapError, renameWord_id, List.map_id]

theorem AgreesFrom.mirrors (h : AgreesFrom T U S) : Mirrors id (Reachable T S) T U where
  isBracketed_eq _ _ := rfl
  bodies?_eq X hX hbracketed := by
    rw [id_eq, h X hX hbracketed]
    simp
  kind_of_mem X bodies body hX hbracketed hfind hbody Y hY := .step hX hbracketed hfind hbody hY

theorem AgreesFrom.derivesAlike (h : AgreesFrom T U S) : DerivesAlike T U (some S) := by
  intro σ limit ask source steps
  have hstart : ∀ X ∈ some S, Reachable T S X := by
    rintro X ⟨⟩
    exact .start
  have hsame : (fun e : Ending σ => e.rename id) = id := funext Ending.rename_id
  have hderive : derive U limit ask steps (some S) source = derive T limit ask steps (some S) source := by
    calc derive U limit ask steps (some S) source
        = (derive T limit ask steps (some S) source).map fun e => e.rename id :=
          h.mirrors.derive_rename limit ask hstart steps source
      _ = derive T limit ask steps (some S) source := by rw [hsame, Option.map_id_fun, id_eq]
  have hquestions : questions U limit ask steps (some S) source =
      questions T limit ask steps (some S) source :=
    h.mirrors.questions_rename limit ask hstart steps source
  exact ⟨by rw [generate, generate, hderive], hquestions.symm⟩

/-- Derivations go alike from tables that agree on the bracketed symbols which can be reached.  It
does not count in which order the heads stand, nor what a head has that cannot be reached or is plain,
or whether it is there at all.  A grammar that has been read derives like the one that is read again
from its text. -/
theorem derivesAlike_of_agreesFrom :
    (∀ T U S, AgreesFrom T U S → DerivesAlike T U (some S)) ∧
    (∀ T U : Table, T.entries.Perm U.entries → ∀ S, DerivesAlike T U (some S)) ∧
    (∀ (T : Table) S X, ¬(Reachable T S X ∧ X.isBracketed = true) →
      DerivesAlike T (T.erase X) (some S) ∧
        ∀ bodies, DerivesAlike T (T.insert X bodies) (some S)) ∧
    ∀ text, (Grammar.ofSource (Grammar.ofSource text).toSource).start? =
        (Grammar.ofSource text).start? ∧
      DerivesAlike (Grammar.ofSource text).table
        (Grammar.ofSource (Grammar.ofSource text).toSource).table (Grammar.ofSource text).start? := by
  refine ⟨fun T U S h => h.derivesAlike, fun T U h S => (agreesFrom_of_perm h S).derivesAlike,
    fun T S X h => ⟨(agreesFrom_erase h).derivesAlike,
      fun bodies => (agreesFrom_insert h bodies).derivesAlike⟩, fun text => ?_⟩
  have hsame : Grammar.ofSource (Grammar.ofSource text).toSource = Grammar.ofSource text :=
    Grammar.ofSource_toSource_eq_self (Grammar.isWritable_ofSource text).1
      (Grammar.start?_ofSource text)
  rw [hsame]
  exact ⟨rfl, fun σ limit ask source steps => ⟨rfl, rfl⟩⟩

/-- `<S>` and `<E>` can be reached from `<S>`. -/
def twoReached : Table :=
  .ofList [(⟨"<S>"⟩, [[⟨"a"⟩, ⟨"<E>"⟩], [⟨"<U>"⟩]]), (⟨"<X>"⟩, [[⟨"b"⟩]]), (⟨"<E>"⟩, [])]

/-- The same two heads in another order, beside other heads. -/
def twoReachedAmongOthers : Table :=
  .ofList [(⟨"a"⟩, [[⟨"<S>"⟩]]), (⟨"<E>"⟩, []), (⟨"<X>"⟩, [[⟨"<X>"⟩], []]),
    (⟨"<S>"⟩, [[⟨"a"⟩, ⟨"<E>"⟩], [⟨"<U>"⟩]])]

theorem mem_of_reachable_twoReached (hX : Reachable twoReached ⟨"<S>"⟩ X) :
    X ∈ [⟨"<S>"⟩, ⟨"a"⟩, ⟨"<E>"⟩, ⟨"<U>"⟩] :=
  hX.mem_of_closed (by decide) (by decide)

theorem agreesFrom_twoReached : AgreesFrom twoReached twoReachedAmongOthers ⟨"<S>"⟩ := by
  intro X hX hbracketed
  have hsame : ∀ Y ∈ [⟨"<S>"⟩, ⟨"a"⟩, ⟨"<E>"⟩, ⟨"<U>"⟩], Y.isBracketed = true →
      twoReachedAmongOthers.bodies? Y = twoReached.bodies? Y := by
    decide
  exact hsame X (mem_of_reachable_twoReached hX) hbracketed

/-- The same heads from the last to the first. -/
def twoReachedBackwards : Table := .ofList twoReached.entries.reverse

theorem derivesAlike_twoReached :
    AgreesFrom twoReached twoReachedAmongOthers ⟨"<S>"⟩ ∧
    generate twoReachedAmongOthers (some 3) answering 9 (some ⟨"<S>"⟩) [0] = some (.ok "a ", []) ∧
    generate twoReachedAmongOthers none answering 9 (some ⟨"<S>"⟩) [1] =
      some (.error (.undefined ⟨"<U>"⟩), []) ∧
    twoReached.entries.Perm twoReachedBackwards.entries ∧
    generate twoReachedBackwards none answering 9 (some ⟨"<S>"⟩) [2] =
      some (.error (.outOfRange 2 2), []) ∧
    ¬(Reachable twoReached ⟨"<S>"⟩ ⟨"<X>"⟩ ∧ (⟨"<X>"⟩ : Symbol).isBracketed = true) ∧
    questions (twoReached.erase ⟨"<X>"⟩) (some 1) answering 9 (some ⟨"<S>"⟩) [0] = [2] := by
  obtain ⟨hagree, hperm, hinsignificant, -⟩ := derivesAlike_of_agreesFrom
  have hothers := hagree _ _ _ agreesFrom_twoReached
  have hreordered : twoReached.entries.Perm twoReachedBackwards.entries := by decide
  have hbackwards := hperm _ _ hreordered ⟨"<S>"⟩
  have hnotReached : ¬(Reachable twoReached ⟨"<S>"⟩ ⟨"<X>"⟩ ∧
      (⟨"<X>"⟩ : Symbol).isBracketed = true) := by
    rintro ⟨hX, -⟩
    exact absurd (mem_of_reachable_twoReached hX) (by decide)
  have herased := (hinsignificant _ _ _ hnotReached).1
  refine ⟨agreesFrom_twoReached, ?_, ?_, hreordered, ?_, hnotReached, ?_⟩
  · rw [← (hothers _ (some 3) answering [0] 9).1]
    rfl
  · rw [← (hothers _ none answering [1] 9).1]
    rfl
  · rw [← (hbackwards _ none answering [2] 9).1]
    rfl
  · rw [← (herased _ (some 1) answering [0] 9).2]
    rfl

end Derivation

end BraceGrammar
