import BraceGrammar.CommandLine.PrintSentence.Outcome
import BraceGrammar.Proofs.Arguments
import BraceGrammar.Proofs.Failures
import BraceGrammar.Proofs.PrintSentence
import BraceGrammar.Proofs.Writable

/-!
# Exit codes of the program that prints a sentence

A run comes to one of the outcomes (`outcome_of_serve`).  What has been loaded has an entry for its
start symbol, so under a limit of nothing the first expansion fails when there is one
(`generate_under_zero`); and the choices of a seed are indices of bodies, so that every other failure
of a derivation is one that the program answers.  The exit codes are read off the outcomes.
-/

namespace BraceGrammar

open BraceGrammar.Derivation

/-! ## Loaded grammars -/

/-- Under a limit of no expansions a plain symbol is the sentence, and a symbol with an entry goes
beyond the limit. -/
theorem Derivation.generate_under_zero {σ : Type} {T : Table} {ask : Nat → σ → Int × σ}
    {fuel : Nat} {S : Symbol} {source rest : σ} {result : Except Failure String}
    (hS : ∃ bodies, T.bodies? S = some bodies)
    (h : generate T (some 0) ask fuel (some S) source = some (result, rest)) :
    result = if S.isBracketed = true then .error (.limit 0) else .ok (sentence [S.text]) := by
  obtain ⟨e, hends, hanswer⟩ := (exists_generate_iff T (some 0) ask S source _).1 ⟨fuel, h⟩
  obtain ⟨rfl, rfl⟩ := Prod.mk.inj hanswer
  by_cases hbracketed : S.isBracketed = true
  · obtain ⟨bodies, hfind⟩ := hS
    have hfails : replace T (some 0) ask S 0 source = .fails (.limit 0) 1 source := by
      simp only [replace, isPlain_eq_false hbracketed, hfind]
      rfl
    rw [if_pos hbracketed, hends.unique (ends_of_fails hfails [] [])]
    rfl
  · have hplain : S.isPlain = true := by simpa [Symbol.isPlain] using hbracketed
    have hbecomes : replace T (some 0) ask S 0 source = .becomes [S.text] [] 0 source :=
      replace_plain hplain
    have hleads := leads_of_becomes hbecomes [] []
    rw [if_neg hbracketed, hends.unique (hleads.ends (.last rfl))]
    rfl

theorem Grammar.flatten_of_start {g : Grammar} {S : Symbol} (hstart : g.start? = some S) :
    g.flatten = if g.table.productions.isEmpty = true then .error .productions
      else .ok ⟨S.bareName, g.table.productions⟩ := by
  simp only [flatten, hstart]

namespace CommandLine

namespace PrintSentence

variable {fuel entropy : Nat} {program : String} {tree : FileTree} {o : Options} {r : Result}
  {path : String} {g : Grammar} {S : Symbol}

/-! ## Outcomes -/

section Seeded

variable {seed : Int} {rest : Choice.Source}

/-- With a seed the limit is all that may be left without an answer. -/
theorem escape?_of_seeded (hflat : o.flat = false) (hseed : o.seed.get entropy .seed = .ok seed)
    (g : Grammar) (S : Symbol) : o.escape? g S =
      if o.limit = .blank ∧ S.isBracketed = true then some (.blank .limit) else none := by
  have hnotBlank : o.seed ≠ .blank := by
    intro hblank
    rw [hblank] at hseed
    cases hseed
  simp [Options.escape?, hflat, hnotBlank]

/-- The choices of a seed are indices of bodies, so a derivation that fails has met a symbol without
an entry or gone beyond a limit, and the program answers that. -/
theorem cause_of_generate (hlimit : o.limit ≠ .blank) {failure : Failure}
    (h : generate g.table o.limit.limit? Choice.Source.ask fuel (some S) (.ofSeed seed) =
      some (.error failure, rest)) :
    ((∃ X, failure = .undefined X) ∨ ∃ n, o.limit = .value n ∧ failure = .limit n) ∧
      (Fault.derivation failure).isAboutGrammar = true := by
  obtain ⟨X, -, -, -, rfl⟩ | ⟨n, hn, rfl⟩ := failure_cases_of_generate
    Choice.Source.keepsRange_isSeeded (Choice.Source.isSeeded_ofSeed seed) h
  · exact ⟨.inl ⟨X, rfl⟩, rfl⟩
  · exact ⟨.inr ⟨n, Setting.eq_value_of_limit? hlimit hn, rfl⟩, rfl⟩

variable (hflat : o.flat = false) (hseed : o.seed.get entropy .seed = .ok seed)
  (hfile : o.file? = some path) (hload : loadStarting tree path = .ok (g, S))
  {result : Except Failure String}
  (h : generate g.table o.limit.limit? Choice.Source.ask fuel (some S) (.ofSeed seed) =
    some (result, rest))

include hflat hseed hfile hload h

/-- Under a limit without a value the first expansion is left without an answer, if there is one. -/
theorem outcome_under_blank (hlimit : o.limit = .blank) :
    Outcome fuel entropy program tree o (sentenceResult o tree (o.heading path g S) result) := by
  obtain ⟨hloaded, hstart⟩ := loadStarting_eq_ok_iff.1 hload
  obtain ⟨text, rfl⟩ := exists_eq_ofSource hloaded
  have hentry := (Grammar.isWritable_ofSource text).exists_bodies_of_start hstart
  have hescape := escape?_of_seeded hflat hseed (.ofSource text) S
  have hzero : o.limit.limit? = some 0 := by
    rw [hlimit]
    rfl
  have hresult := generate_under_zero hentry (hzero ▸ h)
  by_cases hbracketed : S.isBracketed = true
  · rw [if_pos hbracketed] at hresult
    rw [if_pos ⟨hlimit, hbracketed⟩] at hescape
    have hsame : sentenceResult o tree (o.heading path (.ofSource text) S) result =
        { status := .error (.blank .limit), out := o.heading path (.ofSource text) S, tree } := by
      rw [hresult]
      simp only [sentenceResult, Setting.faultUnder, hlimit, if_true]
      rfl
    rw [hsame]
    exact .escaped hfile hload hescape
  · rw [if_neg hbracketed] at hresult
    rw [if_neg fun hboth => hbracketed hboth.2] at hescape
    subst hresult
    exact .derived ⟨hfile, hload, hescape⟩ hflat hseed h

/-- The derivation of a sentence comes to one of the outcomes. -/
theorem outcome_of_generate :
    Outcome fuel entropy program tree o (sentenceResult o tree (o.heading path g S) result) := by
  by_cases hlimit : o.limit = .blank
  · exact outcome_under_blank hflat hseed hfile hload h hlimit
  · have hescape := escape?_of_seeded hflat hseed g S
    rw [if_neg fun hboth => hlimit hboth.1] at hescape
    cases result with
    | ok text => exact .derived ⟨hfile, hload, hescape⟩ hflat hseed h
    | error failure =>
        obtain ⟨hcause, habout⟩ := cause_of_generate hlimit h
        have hsame : sentenceResult o tree (o.heading path g S) (.error failure) =
            { status := .ok 1, out := o.heading path g S ++ errorLine (.derivation failure),
              tree } := by
          simp only [sentenceResult, Setting.faultUnder_of_ne_blank hlimit, habout, if_true]
        rw [hsame]
        exact .failed ⟨hfile, hload, hescape⟩ hflat hseed h hcause

end Seeded

section Loaded

variable (hfile : o.file? = some path) (hload : loadStarting tree path = .ok (g, S))

include hfile hload

/-- What is printed for a loaded grammar comes to one of the outcomes. -/
theorem outcome_of_print (h : print fuel entropy o tree g S (o.heading path g S) = some r) :
    Outcome fuel entropy program tree o r := by
  have hstart := (loadStarting_eq_ok_iff.1 hload).2
  unfold print at h
  cases hflat : o.flat with
  | true =>
      rw [hflat, if_pos rfl, Grammar.flatten_of_start hstart] at h
      by_cases hempty : g.table.productions.isEmpty = true
      · rw [if_pos hempty] at h
        cases h
        exact .escaped hfile hload (by simp [Options.escape?, hflat, hempty, Fault.ofLack])
      · rw [if_neg hempty] at h
        cases h
        refine .flattened ⟨hfile, hload, by simp [Options.escape?, hflat, hempty]⟩ hflat ?_
        rw [Grammar.flatten_of_start hstart, if_neg hempty]
  | false =>
      rw [hflat, if_neg Bool.false_ne_true] at h
      cases hseed : o.seed.get entropy .seed with
      | error fault =>
          obtain ⟨hblank, rfl⟩ := Setting.eq_blank_of_get hseed
          rw [hseed] at h
          cases h
          exact .escaped hfile hload (by simp [Options.escape?, hflat, hblank])
      | ok seed =>
          rw [hseed] at h
          obtain ⟨⟨result, rest⟩, hgenerate, rfl⟩ := Option.map_eq_some_iff.1 h
          exact outcome_of_generate hflat hseed hfile hload hgenerate

end Loaded

/-- What the program is asked for comes to one of the outcomes. -/
theorem outcome_of_serve (h : serve fuel entropy program o tree = some r) :
    Outcome fuel entropy program tree o r := by
  unfold serve at h
  split at h
  · next hfile =>
    cases h
    exact .unasked hfile
  · next path hfile =>
    split at h
    · next fault hload =>
      rw [if_pos (isAboutGrammar_of_loadStarting hload)] at h
      cases h
      exact .unloaded hfile hload
    · next g S hload => exact outcome_of_print hfile hload h

/-! ## What the outcomes have in common -/

theorem Outcome.tree_eq (h : Outcome fuel entropy program tree o r) : r.tree = tree := by
  cases h <;> rfl

theorem Outcome.le_two (h : Outcome fuel entropy program tree o r) {code : Nat}
    (hcode : r.status = .ok code) : code ≤ 2 := by
  cases h <;> cases hcode <;> omega

theorem Outcome.file?_eq_none_iff (h : Outcome fuel entropy program tree o r) :
    o.file? = none ↔ r.status = .ok 2 := by
  cases h with
  | unasked file => simp [file]
  | unloaded file load => simp [file]
  | flattened serves => simp [serves.file]
  | derived serves => simp [serves.file]
  | failed serves => simp [serves.file]
  | escaped file => simp [file]

theorem Outcome.out_of_two (h : Outcome fuel entropy program tree o r)
    (hcode : r.status = .ok 2) : r.out = usageLine program := by
  cases h <;> cases hcode
  rfl

/-- There is one file to load, and loading it has one result. -/
theorem load_unique {path' : String} {x x' : Except Fault (Grammar × Symbol)}
    (hfile : o.file? = some path) (hload : loadStarting tree path = x)
    (hfile' : o.file? = some path') (hload' : loadStarting tree path' = x') :
    path = path' ∧ x = x' := by
  obtain rfl := Option.some.inj (hfile.symm.trans hfile')
  exact ⟨rfl, hload.symm.trans hload'⟩

/-- A fault is left to the caller just when the program has no answer to it. -/
theorem Outcome.escapes_iff (h : Outcome fuel entropy program tree o r) (fault : Fault) :
    r.status = .error fault ↔ ∃ path g S, o.file? = some path ∧
      loadStarting tree path = .ok (g, S) ∧ o.escape? g S = some fault := by
  have hserves {path g S} (serves : o.Serves tree path g S) :
      ¬∃ path g S, o.file? = some path ∧ loadStarting tree path = .ok (g, S) ∧
        o.escape? g S = some fault := by
    rintro ⟨path', g', S', hfile, hload, hescape⟩
    obtain ⟨rfl, hsame⟩ := load_unique serves.file serves.load hfile hload
    cases hsame
    exact Option.some_ne_none fault (hescape.symm.trans serves.answered)
  cases h with
  | unasked file =>
      refine iff_of_false (fun h => nomatch h) ?_
      rintro ⟨path, g, S, hfile, -⟩
      exact Option.some_ne_none path (hfile.symm.trans file)
  | unloaded file load =>
      refine iff_of_false (fun h => nomatch h) ?_
      rintro ⟨path', g, S, hfile, hload, -⟩
      cases (load_unique file load hfile hload).2
  | flattened serves => exact iff_of_false (fun h => nomatch h) (hserves serves)
  | derived serves => exact iff_of_false (fun h => nomatch h) (hserves serves)
  | failed serves => exact iff_of_false (fun h => nomatch h) (hserves serves)
  | escaped file load escapes =>
      constructor
      · intro h
        cases h
        exact ⟨_, _, _, file, load, escapes⟩
      · rintro ⟨path', g', S', hfile, hload, hescape⟩
        obtain ⟨rfl, hsame⟩ := load_unique file load hfile hload
        cases hsame
        exact congrArg Except.error (Option.some.inj (escapes.symm.trans hescape))

/-! ## The answer to a file without a grammar -/

/-- A file gives no grammar with a start symbol when it is not there, is not encoded as it should
be, or declares no block. -/
theorem exists_loadStarting_eq_error_iff (tree : FileTree) (path : String) :
    (∃ fault, loadStarting tree path = .error fault) ↔
      tree.content? (tree.path path) = none ∨
        (∃ content cause, tree.content? (tree.path path) = some content ∧
          Encoding.utf8.decode content = .error cause) ∨
        ∃ g, loadGrammar tree path fileCodec = .ok g ∧ g.start? = none := by
  simp only [loadStarting_eq_error_iff]
  cases hcontent : tree.content? (tree.path path) with
  | none =>
      refine iff_of_true ⟨.unreadable path (some "no such file"), .inl ?_⟩ (.inl rfl)
      simp only [loadGrammar, readText, hcontent]
      rfl
  | some content =>
      cases hdecode : Encoding.utf8.decode content with
      | error cause =>
          refine iff_of_true ⟨.unreadable path (some cause.message), .inl ?_⟩
            (.inr (.inl ⟨content, cause, rfl, hdecode⟩))
          have hfault : Encoding.utf8.codec.decode content = .error ⟨true, cause.message⟩ :=
            mapError_eq_error_iff.2 ⟨cause, hdecode, rfl⟩
          simp only [loadGrammar, readText, hcontent, fileCodec_eq, hfault]
          rfl
      | ok text =>
          have hload := loadGrammar_eq_ok hcontent hdecode
          constructor
          · rintro ⟨fault, hnever | ⟨g, hg, hnone, -⟩⟩
            · cases hload.symm.trans hnever
            · exact .inr (.inr ⟨g, hg, hnone⟩)
          · rintro (hnever | ⟨content', cause, hsame, hfault⟩ | ⟨g, hg, hnone⟩)
            · cases hnever
            · obtain rfl := Option.some.inj hsame
              cases hdecode.symm.trans hfault
            · exact ⟨_, .inr ⟨g, hg, hnone, rfl⟩⟩

/-- A failure that is answered is told in other words than a file that gives no grammar. -/
theorem exists_head?_message {failure : Failure}
    (hcause : (∃ X, failure = .undefined X) ∨ ∃ n, o.limit = .value n ∧ failure = .limit n) :
    ∃ c, c ≠ 'F' ∧ failure.message.toList.head? = some c := by
  obtain ⟨X, rfl⟩ | ⟨n, -, rfl⟩ := hcause
  · have hmessage : (Failure.undefined X).message = "undefined non-terminal: " ++ X.text := rfl
    have hfirst : "undefined non-terminal: ".toList.head? = some 'u' := by decide
    refine ⟨'u', by decide, ?_⟩
    rw [hmessage, String.toList_append, List.head?_append, hfirst, Option.some_or]
  · have hmessage : (Failure.limit n).message =
        "derivation did not finish within " ++ toString n ++ " expansions" := rfl
    have hfirst : "derivation did not finish within ".toList.head? = some 'd' := by decide
    refine ⟨'d', by decide, ?_⟩
    rw [hmessage, String.toList_append, String.toList_append, List.append_assoc,
      List.head?_append, hfirst, Option.some_or]

theorem heading_errorLine_ne {failure : Failure}
    (hcause : (∃ X, failure = .undefined X) ∨ ∃ n, o.limit = .value n ∧ failure = .limit n) :
    o.heading path g S ++ errorLine (.derivation failure) ≠
      fileErrorLine ++ usageLine program ++ "\n" := by
  intro h
  have hchars := congrArg String.toList h
  unfold Options.heading at hchars
  split at hchars
  · simp [loadedLine, fileErrorLine] at hchars
  · obtain ⟨c, hc, hhead⟩ := exists_head?_message hcause
    have herror : errorLine (.derivation failure) = "ERROR: " ++ failure.message ++ "\n" := rfl
    have hfile : fileErrorLine = "ERROR: " ++ "File could not be read.\n" := by decide
    have hfirst : "File could not be read.\n".toList.head? = some 'F' := by decide
    rw [String.empty_append, herror, hfile] at hchars
    simp only [String.toList_append, List.append_assoc] at hchars
    have hheads := congrArg List.head? (List.append_cancel_left hchars)
    rw [List.head?_append, List.head?_append, hhead, hfirst] at hheads
    exact hc (Option.some.inj hheads)

/-- The answer to a file without a grammar is given just when there is none with a start symbol. -/
theorem Outcome.unloaded_iff (h : Outcome fuel entropy program tree o r) :
    (r.status = .ok 1 ∧ r.out = fileErrorLine ++ usageLine program ++ "\n") ↔
      ∃ path, o.file? = some path ∧ ∃ fault, loadStarting tree path = .error fault := by
  have hserves {path g S} (file : o.file? = some path)
      (load : loadStarting tree path = .ok (g, S)) :
      ¬∃ path, o.file? = some path ∧ ∃ fault, loadStarting tree path = .error fault := by
    rintro ⟨path', hfile, fault, hload⟩
    cases (load_unique file load hfile hload).2
  cases h with
  | unasked file =>
      refine iff_of_false (fun h => nomatch h.1) ?_
      rintro ⟨path, hfile, -⟩
      exact Option.some_ne_none path (hfile.symm.trans file)
  | unloaded file load => exact iff_of_true ⟨rfl, rfl⟩ ⟨_, file, _, load⟩
  | flattened serves =>
      exact iff_of_false (fun h => nomatch h.1) (hserves serves.file serves.load)
  | derived serves => exact iff_of_false (fun h => nomatch h.1) (hserves serves.file serves.load)
  | failed serves flat seeded fails cause =>
      exact iff_of_false (fun h => heading_errorLine_ne cause h.2)
        (hserves serves.file serves.load)
  | escaped file load => exact iff_of_false (fun h => nomatch h.1) (hserves file load)

/-! ## Runs -/

/-- A run whose arguments can be read changes no file.  It ends with the exit code 2 and the usage
line just when there is no file to load, and with the exit code 1 and the words about the file just
when the file gives no grammar with a start symbol.  It ends without an exit code just when it has
no answer to what is asked for, and with one that is no greater than 2 otherwise. -/
theorem run_answers (fuel entropy : Nat) (program : String) (arguments : List String)
    (tree : FileTree) (c : Settings) (r : Result) (hread : interface.read arguments = .ok c)
    (hrun : run fuel entropy program arguments tree = some r) :
    r.tree = tree ∧
      ((Options.ofSettings c).file? = none ↔ r.status = .ok 2) ∧
      (r.status = .ok 2 → r.out = usageLine program) ∧
      ((r.status = .ok 1 ∧ r.out = fileErrorLine ++ usageLine program ++ "\n") ↔
        ∃ path, (Options.ofSettings c).file? = some path ∧
          (tree.content? (tree.path path) = none ∨
            (∃ content cause, tree.content? (tree.path path) = some content ∧
              Encoding.utf8.decode content = .error cause) ∨
            ∃ g, loadGrammar tree path fileCodec = .ok g ∧ g.start? = none)) ∧
      (∀ fault, r.status = .error fault ↔ ∃ path g S, (Options.ofSettings c).file? = some path ∧
        loadStarting tree path = .ok (g, S) ∧ (Options.ofSettings c).escape? g S = some fault) ∧
      ∀ code, r.status = .ok code → code ≤ 2 := by
  have houtcome : Outcome fuel entropy program tree (.ofSettings c) r := by
    simp only [run, hread] at hrun
    exact outcome_of_serve hrun
  refine ⟨houtcome.tree_eq, houtcome.file?_eq_none_iff, houtcome.out_of_two, ?_,
    houtcome.escapes_iff, fun code => houtcome.le_two⟩
  simp only [houtcome.unloaded_iff, exists_loadStarting_eq_error_iff]

/-! ## A grammar without bodies -/

/-- A grammar file with a head that has no bodies. -/
def bodilessSource : Bytes := [0x7B, 0x20, 0x3C, 0x53, 0x3E, 0x20, 0x7D]

def bodiless : FileTree := .ofPaths (.ofNames ["w"]) [("g", .file bodilessSource)]

def flatSwitch : Switch where
  names := ["--nltk"]
  help := "print the grammar as an nltk CFG instead of generating"

theorem read_flat : interface.read ["g", "--nltk"] =
    .ok { operand? := some "g", given := [("--nltk", .yes)] } := by
  have hclassify : interface.classifyAll ["g", "--nltk"] =
      .ok [.plain "g", .switch flatSwitch "--nltk" none] := rfl
  refine Interface.read_eq_ok hclassify ?_ rfl
  apply Interface.takeAll_operand rfl rfl (by simp)
  apply Interface.takeAll_nothing rfl rfl
  exact Interface.takeAll_nil _ _

theorem read_file (path : String) (h : path.toList.head? ≠ some '-') :
    interface.read [path] = .ok { operand? := some path } := by
  have hne : path ≠ "--" := by
    rintro rfl
    exact h rfl
  have hclassify : interface.classifyAll [path] = .ok [.plain path] :=
    Interface.classifyAll_cons hne (Interface.classify_plain h) rfl
  refine Interface.read_eq_ok hclassify ?_ rfl
  apply Interface.takeAll_operand rfl rfl (by simp)
  exact Interface.takeAll_nil _ _

/-- A file that is not there is answered with the exit code 1. -/
theorem run_answers_missing :
    ∃ r, interface.read ["h"] = .ok { operand? := some "h" } ∧
      run 1 0 "print" ["h"] bodiless = some r ∧ r.status = .ok 1 ∧
      r.out = fileErrorLine ++ usageLine "print" ++ "\n" ∧ r.tree = bodiless := by
  have hread := read_file "h" (by decide)
  have hload : loadStarting bodiless "h" = .error (.unreadable "h" (some "no such file")) := rfl
  obtain ⟨r, hrun⟩ : ∃ r, run 1 0 "print" ["h"] bodiless = some r :=
    ⟨_, run_of_unloaded hread rfl hload⟩
  obtain ⟨htree, -, -, hunloaded, -⟩ := run_answers _ _ _ _ _ _ _ hread hrun
  obtain ⟨hstatus, hout⟩ := hunloaded.2 ⟨"h", rfl, .inl rfl⟩
  exact ⟨r, hread, hrun, hstatus, hout, htree⟩

/-- The flat form of a grammar without bodies ends the program without an exit code. -/
theorem run_flat_bodiless :
    (∃ c, interface.read ["g", "--nltk"] = .ok c) ∧
      ∃ r, run 1 0 "print" ["g", "--nltk"] bodiless = some r ∧
        r.status = .error .noProductions ∧ r.out = "" ∧ ∀ code, r.status ≠ .ok code := by
  have hdecode : Encoding.utf8.decode bodilessSource = .ok _ := Encoding.decode_utf8_of_lt rfl
  have hcontent : bodiless.content? (bodiless.path "g") = some bodilessSource := rfl
  have hload : loadStarting bodiless "g" = .ok (⟨.ofList [(⟨"<S>"⟩, [])], some ⟨"<S>"⟩⟩, ⟨"<S>"⟩) := by
    rw [loadStarting_eq_ok_iff, loadGrammar_eq_ok hcontent hdecode]
    exact ⟨rfl, rfl⟩
  refine ⟨⟨_, read_flat⟩, { status := .error .noProductions, tree := bodiless }, ?_, rfl, rfl,
    fun code => nofun⟩
  simp only [run, read_flat]
  change serve 1 0 "print" { file? := some "g", flat := true } bodiless = _
  simp only [serve, hload]
  rfl

end PrintSentence

end CommandLine

end BraceGrammar
