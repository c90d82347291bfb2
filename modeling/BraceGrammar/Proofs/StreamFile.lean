import BraceGrammar.Proofs.SentenceFile
import BraceGrammar.Proofs.SentenceStream

/-!
# Writing the sentences of a stream

What a stream supplies for a file is a sequence of derivations, up to its count or to the first
failure (`gives_ofStream`).  So there are three ways for the writing of a stream to end
(`writeStream_cases`): all sentences are in the file, or a derivation failed after so many of them,
or there is a fault that no grammar is to blame for.
-/

namespace BraceGrammar

open BraceGrammar.Derivation

/-! ## Faults that no grammar is to blame for -/

namespace Fault

theorem isAboutGrammar_path (cause : FileTree.Fault) :
    (Fault.path cause).isAboutGrammar = false := by
  cases cause <;> rfl

end Fault

namespace SentenceFile

variable {σ : Type} {T : Table} {limit : Option Int} {ask : Nat → σ → Int × σ} {S : Symbol}
  {source : σ} {fuel n : Nat} {texts : List String} {fault? : Option Fault}
  {rest : SentenceStream × σ}

/-! ## What a stream supplies -/

theorem ofStream_succ (n : Nat) (source : σ) :
    ofStream T ask fuel (⟨S, limit, n + 1⟩, source) =
      (generate T limit ask fuel (some S) source).map fun
        | (.ok text, rest) => .sentence text (⟨S, limit, n⟩, rest)
        | (.error cause, rest) => .fault (.derivation cause) (⟨S, limit, 0⟩, rest) := by
  rw [ofStream, SentenceStream.next_eq_map_generate T ask fuel (Nat.succ_ne_zero n), Option.map_map]
  congr 1
  funext ⟨result, rest⟩
  cases result <;> rfl

/-- What a stream gives comes from derivations in sequence: of all its sentences, or of some that a
failure follows. -/
theorem gives_ofStream
    (h : Gives (ofStream T ask fuel) (⟨S, limit, n⟩, source) texts fault? rest) :
    (fault? = none ∧ texts.length = n ∧
      generateEach T limit ask fuel (some S) n source = some (texts.map .ok, rest.2)) ∨
    ∃ failure mid, fault? = some (.derivation failure) ∧ texts.length < n ∧
      generateEach T limit ask fuel (some S) texts.length source = some (texts.map .ok, mid) ∧
      generate T limit ask fuel (some S) mid = some (.error failure, rest.2) := by
  induction n generalizing source texts with
  | zero =>
      cases h with
      | ended last =>
          cases last
          exact .inl ⟨rfl, rfl, rfl⟩
      | fault last => cases last
      | sentence first => cases first
  | succ n ih =>
      cases h with
      | ended last =>
          rw [ofStream_succ] at last
          obtain ⟨⟨_ | _, _⟩, -, hitem⟩ := Option.map_eq_some_iff.1 last <;> cases hitem
      | fault last =>
          rw [ofStream_succ] at last
          obtain ⟨⟨failure | text, mid⟩, hresult, hitem⟩ := Option.map_eq_some_iff.1 last
          all_goals cases hitem
          exact .inr ⟨failure, source, rfl, Nat.succ_pos n, rfl, hresult⟩
      | @sentence _ next _ text texts _ first others =>
          rw [ofStream_succ] at first
          obtain ⟨⟨failure | text', mid⟩, hresult, hitem⟩ := Option.map_eq_some_iff.1 first
          all_goals cases hitem
          obtain ⟨rfl, rfl, hall⟩ | ⟨failure, mid', rfl, hfewer, hbefore, hfails⟩ := ih others
          · exact .inl ⟨rfl, rfl, generateEach_succ_iff.2 ⟨_, _, mid, hresult, hall, rfl⟩⟩
          · exact .inr ⟨failure, mid', rfl, Nat.succ_lt_succ hfewer,
              generateEach_succ_iff.2 ⟨_, _, mid, hresult, hbefore, rfl⟩, hfails⟩

/-- A stream whose derivations all end with a sentence gives these. -/
theorem gives_ofStream_of_generateEach {last : σ}
    (h : generateEach T limit ask fuel (some S) n source = some (texts.map .ok, last)) :
    Gives (ofStream T ask fuel) (⟨S, limit, n⟩, source) texts none (⟨S, limit, 0⟩, last) := by
  induction n generalizing source texts with
  | zero =>
      obtain ⟨htexts, rfl⟩ := Prod.mk.inj (Option.some.inj h)
      obtain rfl := List.map_eq_nil_iff.1 htexts.symm
      exact .ended rfl
  | succ n ih =>
      obtain ⟨result, others, mid, hfirst, hothers, hresults⟩ := generateEach_succ_iff.1 h
      obtain ⟨text, texts, rfl, rfl, rfl⟩ := List.map_eq_cons_iff.1 hresults
      refine .sentence ?_ (ih hothers)
      rw [ofStream_succ, hfirst]
      rfl

/-- A content in the plain encoding of all of Unicode is the lines, with nothing in front. -/
theorem isContent_utf8_iff {texts : List String} {content : Bytes} :
    IsContent Encoding.utf8.codec texts content ↔
      Encoding.utf8.encode (String.join (texts.map line)) = .ok content := by
  unfold IsContent
  rw [Encoding.codec_appendAll_eq_ok_iff]
  by_cases hnone : texts.map line = []
  · rw [hnone, String.join_nil, Encoding.encode_empty]
    simp [eq_comm]
  · simp [hnone, Encoding.opening, eq_comm]

/-! ## Writing a stream -/

variable {t : FileTree} {path : String} {c : Codec}

/-- Writing a stream fails for a reason that is no grammar's, or at a derivation, and leaves all
files as they were in both cases; or all sentences are written. -/
theorem writeStream_cases {w : Written (SentenceStream × σ)}
    (h : writeStream T ask fuel t path (.ok c) ⟨S, limit, n⟩ source = some w) :
    (∃ (texts : List String) (content : Bytes), w.result = .ok n ∧
      generateEach T limit ask fuel (some S) n source = some (texts.map .ok, w.rest.2) ∧
      IsContent c texts content ∧ t.GainsFile w.tree (t.path path) content) ∨
    (∃ (failure : Failure) (texts : List String) (mid : σ),
      w.result = .error (.derivation failure) ∧
      t.GainsDirectories w.tree (t.path path) ∧ texts.length < n ∧
      generateEach T limit ask fuel (some S) texts.length source = some (texts.map .ok, mid) ∧
      generate T limit ask fuel (some S) mid = some (.error failure, w.rest.2)) ∨
    ∃ fault, w.result = .error fault ∧ t.GainsDirectories w.tree (t.path path) ∧
      fault.isAboutGrammar = false := by
  obtain ⟨fault, hfault, hgains, hwhy⟩ | ⟨c', d, hcodec, hdraft, hresult, hfile, -⟩ := write_ends h
  · obtain ⟨cause, rfl⟩ | hcodec | ⟨c', -, hdraft⟩ := hwhy
    · exact .inr (.inr ⟨_, hfault, hgains, Fault.isAboutGrammar_path cause⟩)
    · cases hcodec
    · obtain ⟨cause, rfl⟩ | ⟨texts, hgives⟩ := gives_of_draft_eq_error hdraft
      · exact .inr (.inr ⟨_, hfault, hgains, rfl⟩)
      · obtain ⟨hnone, -⟩ | ⟨failure, mid, hcause, hfewer, hbefore, hfails⟩ :=
          gives_ofStream hgives
        · cases hnone
        · cases hcause
          exact .inr (.inl ⟨failure, texts, mid, hfault, hgains, hfewer, hbefore, hfails⟩)
  · cases hcodec
    obtain ⟨texts, hgives, hholds⟩ := exists_gives_of_draft (Draft.holds_nil c) hdraft
    rw [List.nil_append] at hholds
    obtain ⟨-, rfl, hall⟩ | ⟨failure, mid, hcause, -⟩ := gives_ofStream hgives
    · rw [hholds.length_eq] at hresult
      exact .inl ⟨texts, d.content, hresult, hall, hholds.content, hfile⟩
    · cases hcause

/-! ## Writing where a file can be held -/

section CanHold

variable {w : Written (SentenceStream × σ)} {failure : Failure} {mid : σ}

section Write

variable {τ : Type} {supplied : τ → Option (Supplied τ)} {bound : Nat} {supply rest : τ}
  {fault : Fault} (hhold : t.CanHold (t.path path) asideNameLength)

include hhold

/-- Where a file can be held, writing fails for the reason that the draft fails for. -/
theorem exists_write_of_draft
    (hdraft : draft supplied c bound {} supply = some (.error fault, rest)) :
    ∃ w, write supplied bound t path (.ok c) supply = some w ∧ w.result = .error fault := by
  obtain ⟨u, directory, hmake, hwalk, hroom, hopen⟩ := hhold
  let aside := directory.child u.unusedName
  refine ⟨⟨.error fault, (u.put aside (.file [])).remove aside, rest⟩, ?_, rfl⟩
  simp [write, hmake, hwalk, hroom, hopen, hdraft, aside]

theorem write_eq_none_of_draft (hdraft : draft supplied c bound {} supply = none) :
    write supplied bound t path (.ok c) supply = none := by
  obtain ⟨u, directory, hmake, hwalk, hroom, hopen⟩ := hhold
  simp [write, hmake, hwalk, hroom, hopen, hdraft]

end Write

/-- Without room for the file aside nothing is written, and neither is it in a closed directory. -/
theorem write_of_not_canHold {τ : Type} {supplied : τ → Option (Supplied τ)} {bound : Nat}
    {supply : τ} {u : FileTree} {directory : FileTree.Place}
    (hmake : (t.path path).parent?.elim (t, none) t.makeDirectories = (u, none))
    (hwalk : (t.path path).parent?.elim (.ok u.home) (fun p => u.walk p.start p.names) =
      .ok directory)
    (hfull : directory.hasRoom asideNameLength = false ∨ (u.refusal? directory).isSome = true) :
    ∃ cause, write supplied bound t path (.ok c) supply =
      some ⟨.error (.path cause), u, supply⟩ := by
  cases hroom : directory.hasRoom asideNameLength with
  | false => exact ⟨.nameTooLong, by simp [write, hmake, hwalk, hroom]⟩
  | true =>
      obtain ⟨cause, hclosed⟩ := Option.isSome_iff_exists.1
        (hfull.resolve_left (by simp [hroom]))
      exact ⟨cause, by simp [write, hmake, hwalk, hroom, hclosed]⟩

theorem draft_ofStream (bound : Nat) (d : Draft) :
    draft (ofStream T ask fuel) c (bound + 1) d (⟨S, limit, n + 1⟩, source) =
      match generate T limit ask fuel (some S) source with
      | none => none
      | some (.error failure, rest) => some (.error (.derivation failure), (⟨S, limit, 0⟩, rest))
      | some (.ok text, rest) =>
        match d.add c text with
        | .error fault => some (.error (.unencodable fault), (⟨S, limit, n⟩, rest))
        | .ok d => draft (ofStream T ask fuel) c bound d (⟨S, limit, n⟩, rest) := by
  rw [draft, ofStream_succ]
  obtain _ | ⟨failure | text, rest⟩ := generate T limit ask fuel (some S) source
  · rfl
  · rfl
  · cases hadd : d.add c text <;> simp only [Option.map_some, hadd]

/-- A stream whose first derivation fails is not written. -/
theorem exists_writeStream_of_fails (hhold : t.CanHold (t.path path) asideNameLength)
    (hn : n ≠ 0)
    (hfails : generate T limit ask fuel (some S) source = some (.error failure, mid)) :
    ∃ w, writeStream T ask fuel t path (.ok c) ⟨S, limit, n⟩ source = some w ∧
      w.result = .error (.derivation failure) := by
  obtain ⟨n, rfl⟩ := Nat.exists_eq_succ_of_ne_zero hn
  exact exists_write_of_draft hhold (by rw [draft_ofStream, hfails])

/-- A stream of some sentences is only written when its first derivation comes to an end. -/
theorem exists_generate_of_writeStream (hhold : t.CanHold (t.path path) asideNameLength)
    (hn : n ≠ 0)
    (h : writeStream T ask fuel t path (.ok c) ⟨S, limit, n⟩ source = some w) :
    ∃ result mid, generate T limit ask fuel (some S) source = some (result, mid) := by
  obtain ⟨n, rfl⟩ := Nat.exists_eq_succ_of_ne_zero hn
  cases hfirst : generate T limit ask fuel (some S) source with
  | none =>
      have hdraft : draft (ofStream T ask fuel) c (n + 1 + 1) {} (⟨S, limit, n + 1⟩, source) =
          none := by
        rw [draft_ofStream, hfirst]
      have hnone := write_eq_none_of_draft hhold hdraft
      exact absurd (h.symm.trans hnone) (Option.some_ne_none w)
  | some ending => exact ⟨ending.1, ending.2, rfl⟩

end CanHold

end SentenceFile

end BraceGrammar
