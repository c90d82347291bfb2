import BraceGrammar.CommandLine.Result
import BraceGrammar.Proofs.SentenceFile

/-!
# Loading a grammar

What the programs have in common before they derive a sentence: they load a grammar, look for its
start symbol and use their settings.  A fault of the grammar's file or of its start symbol is about
the grammar, and a setting without a value never is.
-/

namespace BraceGrammar

theorem fileCodec_eq : CommandLine.fileCodec = .ok Encoding.utf8.codec :=
  findCodec_of_ofName? (by decide) rfl

theorem Grammar.requireStart_eq_ok_iff {g : Grammar} {S : Symbol} :
    g.requireStart = .ok S ↔ g.start? = some S := by
  unfold requireStart
  cases g.start? <;> simp

theorem Grammar.requireStart_eq_error_iff {g : Grammar} {cause : Lack} :
    g.requireStart = .error cause ↔ g.start? = none ∧ cause = .start := by
  unfold requireStart
  cases g.start? <;> simp [eq_comm]

theorem exists_eq_ofSource {tree : FileTree} {path : String} {codec : Except Fault Codec}
    {g : Grammar} (h : loadGrammar tree path codec = .ok g) : ∃ text, g = .ofSource text := by
  unfold loadGrammar at h
  cases hread : readText tree path codec with
  | error fault =>
      rw [hread] at h
      cases h
  | ok text =>
      rw [hread] at h
      cases h
      exact ⟨text, rfl⟩

namespace CommandLine

variable {tree : FileTree} {path : String} {fault : Fault}

/-! ## Faults in settings and in files -/

theorem Setting.eq_blank_of_get {α : Type} {s : Setting α} {absent : α} {name : BlankSetting}
    (h : s.get absent name = .error fault) : s = .blank ∧ fault = .blank name := by
  cases s <;> cases h
  exact ⟨rfl, rfl⟩

theorem Setting.isAboutGrammar_of_get {α : Type} {s : Setting α} {absent : α}
    {name : BlankSetting} (h : s.get absent name = .error fault) :
    fault.isAboutGrammar = false := by
  obtain ⟨-, rfl⟩ := eq_blank_of_get h
  rfl

/-- Under a limit a fault stays what it is, or is that of a limit without a value. -/
theorem Setting.faultUnder_cases (limit : Setting Int) (fault : Fault) :
    limit.faultUnder fault = fault ∨ limit.faultUnder fault = .blank .limit := by
  unfold faultUnder
  split
  · split
    · exact .inr rfl
    · exact .inl rfl
  · exact .inl rfl

/-- A fault that is not about the grammar is still not under a limit. -/
theorem Setting.isAboutGrammar_faultUnder (h : fault.isAboutGrammar = false)
    (limit : Setting Int) : (limit.faultUnder fault).isAboutGrammar = false := by
  obtain heq | heq := limit.faultUnder_cases fault
  · rw [heq]
    exact h
  · rw [heq]
    rfl

theorem Setting.faultUnder_of_isAboutGrammar {limit : Setting Int}
    (h : (limit.faultUnder fault).isAboutGrammar = true) : limit.faultUnder fault = fault := by
  obtain heq | heq := limit.faultUnder_cases fault
  · exact heq
  · rw [heq] at h
    cases h

theorem Setting.eq_value_of_limit? {limit : Setting Int} {n : Int} (hblank : limit ≠ .blank)
    (h : limit.limit? = some n) : limit = .value n := by
  cases limit with
  | absent => cases h
  | blank => exact absurd rfl hblank
  | value m => exact congrArg Setting.value (Option.some.inj h)

theorem Setting.faultUnder_of_ne_blank {limit : Setting Int} (hblank : limit ≠ .blank)
    (fault : Fault) : limit.faultUnder fault = fault := by
  unfold faultUnder
  split
  · exact if_neg hblank
  · rfl

/-- A file whose content can be decoded is loaded, with its line ends unified. -/
theorem loadGrammar_eq_ok {content : Bytes} {text : String}
    (hcontent : tree.content? (tree.path path) = some content)
    (hdecode : Encoding.utf8.decode content = .ok text) :
    loadGrammar tree path fileCodec =
      .ok (.ofSource (String.ofList (Text.unifyLineEnds text.toList))) := by
  have hread := Encoding.codec_decode_eq_ok_iff.2 hdecode
  simp only [loadGrammar, readText, hcontent, fileCodec_eq, hread]
  rfl

/-- Whatever is wrong with a grammar file, the fault names the file. -/
theorem exists_eq_unreadable (h : loadGrammar tree path fileCodec = .error fault) :
    ∃ reason?, fault = .unreadable path reason? := by
  unfold loadGrammar readText at h
  rw [fileCodec_eq] at h
  split at h
  · cases h
    exact ⟨_, rfl⟩
  · dsimp only at h
    split at h
    · next cause hdecode =>
      rw [if_pos (Encoding.located_of_codec_decode hdecode)] at h
      cases h
      exact ⟨_, rfl⟩
    · cases h

theorem isAboutGrammar_of_loadGrammar (h : loadGrammar tree path fileCodec = .error fault) :
    fault.isAboutGrammar = true := by
  obtain ⟨reason?, rfl⟩ := exists_eq_unreadable h
  rfl

end CommandLine

end BraceGrammar
