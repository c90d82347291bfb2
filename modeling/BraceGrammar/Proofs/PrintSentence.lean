import BraceGrammar.CommandLine.PrintSentence
import BraceGrammar.Proofs.Loading

/-!
# The program that prints a sentence, step by step

A run that is to print a sentence either finds no grammar with a start symbol, which it answers in
one way whatever the reason (`run_of_unloaded`), or comes to one derivation (`run_of_loaded`).  The
exit code tells how the derivation ended.
-/

namespace BraceGrammar

namespace CommandLine

namespace PrintSentence

open BraceGrammar.Derivation

variable {fuel entropy : Nat} {program : String} {arguments : List String} {tree : FileTree}
  {c : Settings} {o : Options} {path out : String} {fault : Fault} {g : Grammar} {S : Symbol}
  {seed : Int}

/-! ## Loading -/

theorem loadStarting_eq_ok_iff : loadStarting tree path = .ok (g, S) ↔
    loadGrammar tree path fileCodec = .ok g ∧ g.start? = some S := by
  simp only [loadStarting, bind_eq_ok_iff, mapError_eq_ok_iff, Grammar.requireStart_eq_ok_iff]
  constructor
  · rintro ⟨g', hload, S', hstart, hboth⟩
    cases hboth
    exact ⟨hload, hstart⟩
  · rintro ⟨hload, hstart⟩
    exact ⟨g, hload, S, hstart, rfl⟩

theorem loadStarting_eq_error_iff : loadStarting tree path = .error fault ↔
    loadGrammar tree path fileCodec = .error fault ∨
      ∃ g, loadGrammar tree path fileCodec = .ok g ∧ g.start? = none ∧
        fault = .noStart Grammar.Lack.start.message := by
  simp only [loadStarting, bind_eq_error_iff, mapError_eq_error_iff, mapError_eq_ok_iff,
    Grammar.requireStart_eq_error_iff]
  constructor
  · rintro (hload | ⟨g, hload, ⟨lack, ⟨hstart, rfl⟩, rfl⟩ | ⟨S, -, hnever⟩⟩)
    · exact .inl hload
    · exact .inr ⟨g, hload, hstart, rfl⟩
    · cases hnever
  · rintro (hload | ⟨g, hload, hstart, rfl⟩)
    · exact .inl hload
    · exact .inr ⟨g, hload, .inl ⟨_, ⟨hstart, rfl⟩, rfl⟩⟩

theorem isAboutGrammar_of_loadStarting (h : loadStarting tree path = .error fault) :
    fault.isAboutGrammar = true := by
  obtain hload | ⟨g, -, -, rfl⟩ := loadStarting_eq_error_iff.1 h
  · exact isAboutGrammar_of_loadGrammar hload
  · rfl

/-! ## Runs -/

theorem run_of_unloaded (hread : interface.read arguments = .ok c)
    (hfile : (Options.ofSettings c).file? = some path)
    (hload : loadStarting tree path = .error fault) :
    run fuel entropy program arguments tree =
      some { status := .ok 1, out := fileErrorLine ++ usageLine program ++ "\n", tree } := by
  have habout := isAboutGrammar_of_loadStarting hload
  simp only [run, hread, serve, hfile, hload, habout, if_true]

/-- A sentence is printed without a word about the grammar, unless that is asked for. -/
theorem run_of_loaded (hread : interface.read arguments = .ok c)
    (hfile : (Options.ofSettings c).file? = some path) (hflat : (Options.ofSettings c).flat = false)
    (hverbose : (Options.ofSettings c).verbose = false)
    (hseed : (Options.ofSettings c).seed.get entropy .seed = .ok seed)
    (hload : loadStarting tree path = .ok (g, S)) :
    run fuel entropy program arguments tree =
      (generate g.table (Options.ofSettings c).limit.limit? Choice.Source.ask fuel (some S)
        (.ofSeed seed)).map fun (result, _) =>
          sentenceResult (.ofSettings c) tree "" result := by
  simp only [run, hread, serve, hfile, hload, print, hflat, hverbose, hseed, Bool.false_eq_true,
    if_false]

/-! ## Exit codes -/

variable {result : Except Failure String}

theorem exists_eq_ok_of_status (h : (sentenceResult o tree out result).status = .ok 0) :
    ∃ text, result = .ok text ∧ (sentenceResult o tree out result).out = out ++ text ++ "\n" := by
  cases result with
  | ok text => exact ⟨text, rfl, rfl⟩
  | error failure =>
      unfold sentenceResult at h
      dsimp only at h
      split at h
      · simp at h
      · cases h

/-- A derivation that is answered with the exit code 1 fails with a failure about the grammar, which
is printed. -/
theorem exists_eq_error_of_status (h : (sentenceResult o tree out result).status = .ok 1) :
    ∃ failure, result = .error failure ∧
      o.limit.faultUnder (.derivation failure) = .derivation failure ∧
      (Fault.derivation failure).isAboutGrammar = true ∧
      (sentenceResult o tree out result).out = out ++ errorLine (.derivation failure) := by
  cases result with
  | ok text => simp [sentenceResult] at h
  | error failure =>
      unfold sentenceResult at h ⊢
      dsimp only at h ⊢
      split at h
      · next habout =>
        have hsame := Setting.faultUnder_of_isAboutGrammar habout
        rw [hsame] at habout
        refine ⟨failure, rfl, hsame, habout, ?_⟩
        rw [hsame, if_pos habout]
      · cases h

end PrintSentence

end CommandLine

end BraceGrammar
