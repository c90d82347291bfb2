import BraceGrammar.CommandLine.SameRequest
import BraceGrammar.Proofs.PrintSentence
import BraceGrammar.Proofs.WriteSentences

/-!
# The two programs agree

One program prints a sentence, the other writes sentences to a file.  Asked for the same, they find
the same grammar or the same fault in it (`exists_unloaded_iff`), and their first derivation is the
same, whatever fuel each of them is given.  So the sentence that the one prints is in the first line
of the file (`begins_with_printed`), and a failure that the one prints ends the other before there
is a file (`fails_as_printed`), provided that it can begin to write one and that its console has
bytes for what is printed.
-/

namespace BraceGrammar

namespace CommandLine

open BraceGrammar.Derivation

namespace SameRequest

variable {entropy entropy' fuel fuel' : Nat} {o : PrintSentence.Options}
  {o' : WriteSentences.Options} {path output : String} {count : Int} {tree : FileTree}
  {g g' : Grammar} {S S' : Symbol} {seed seed' count' : Int} {output' : String}

/-- The program that writes goes by what the program that prints has loaded. -/
theorem uses (h : SameRequest entropy entropy' o o' path output count)
    (hload : PrintSentence.loadStarting tree path = .ok (g, S))
    (hseed : o.seed.get entropy .seed = .ok seed)
    (hdisplayed : o'.displayed = true → count ≤ SentenceStream.maxDisplayed) :
    o'.Uses entropy' tree g S seed count output := by
  obtain ⟨hgrammar, hstart⟩ := PrintSentence.loadStarting_eq_ok_iff.1 hload
  obtain ⟨seed', hseed', hsame⟩ := h.seed
  obtain rfl : seed = seed' := Except.ok.inj (hseed.symm.trans hseed')
  exact ⟨⟨path, h.written, hgrammar⟩, hstart, hsame, hdisplayed, h.count, h.output⟩

theorem uses_eq (h : SameRequest entropy entropy' o o' path output count)
    (hload : PrintSentence.loadStarting tree path = .ok (g, S))
    (huses : o'.Uses entropy' tree g' S' seed' count' output') :
    g' = g ∧ S' = S ∧ o.seed.get entropy .seed = .ok seed' ∧ count' = count ∧ output' = output := by
  obtain ⟨seed, hseed, -⟩ := h.seed
  obtain rfl : count' = count := Except.ok.inj (huses.count.symm.trans h.count)
  obtain ⟨rfl, rfl, rfl, -, rfl⟩ := (h.uses hload hseed huses.displayed).unique huses
  exact ⟨rfl, rfl, hseed, rfl, rfl⟩

/-- One program finds no grammar with a start symbol when the other does not. -/
theorem exists_unloaded_iff (h : SameRequest entropy entropy' o o' path output count) :
    (∃ fault, PrintSentence.loadStarting tree path = .error fault) ↔
      ∃ fault, WriteSentences.prepare entropy' tree o' = .error fault ∧
        fault.isAboutGrammar = true := by
  obtain ⟨seed, -, hseed⟩ := h.seed
  constructor
  · rintro ⟨fault, hfault⟩
    have habout := PrintSentence.isAboutGrammar_of_loadStarting hfault
    refine ⟨fault, (WriteSentences.prepare_eq_error_iff habout).2 ⟨path, h.written, ?_⟩, habout⟩
    obtain hload | ⟨g, hload, hstart, hnone⟩ := PrintSentence.loadStarting_eq_error_iff.1 hfault
    · exact .inl hload
    · exact .inr ⟨g, seed, hload, hseed, hstart, hnone⟩
  · rintro ⟨fault, hfault, habout⟩
    obtain ⟨path', hfile, hwhy⟩ := (WriteSentences.prepare_eq_error_iff habout).1 hfault
    obtain rfl : path = path' := Except.ok.inj (h.written.symm.trans hfile)
    refine ⟨fault, PrintSentence.loadStarting_eq_error_iff.2 ?_⟩
    obtain hload | ⟨g, -, hload, -, hstart, hnone⟩ := hwhy
    · exact .inl hload
    · exact .inr ⟨g, hload, hstart, hnone⟩

/-! ## Runs of both programs -/

section Runs

variable {console : Codec} {program program' : String} {arguments arguments' : List String}
  {c c' : Settings} {r r' : Result}
  (h : SameRequest entropy entropy' (.ofSettings c) (.ofSettings c') path output count)
  (hread : PrintSentence.interface.read arguments = .ok c)
  (hread' : WriteSentences.interface.read arguments' = .ok c')

include h hread

/-- Past the loading, printing is one derivation. -/
theorem print_eq (hload : PrintSentence.loadStarting tree path = .ok (g, S))
    (hseed : (PrintSentence.Options.ofSettings c).seed.get entropy .seed = .ok seed) (fuel : Nat) :
    PrintSentence.run fuel entropy program arguments tree =
      (generate g.table (PrintSentence.Options.ofSettings c).limit.limit? Choice.Source.ask fuel
        (some S) (.ofSeed seed)).map fun (result, _) =>
          PrintSentence.sentenceResult (.ofSettings c) tree "" result :=
  PrintSentence.run_of_loaded hread h.printed h.sentence.1 h.sentence.2 hseed hload

include hread'

/-- The file that is written begins with the line of the sentence that is printed. -/
theorem begins_with_printed {s : String}
    (hrun : PrintSentence.run fuel entropy program arguments tree = some r)
    (hrun' : WriteSentences.run console fuel' entropy' program' arguments' tree = some r')
    (hstatus : r.status = .ok 0) (hout : r.out = s ++ "\n") (hstatus' : r'.status = .ok 0) :
    ∃ others content, r'.tree.content? (tree.path output) = some content ∧
      Encoding.utf8.encode (SentenceFile.line s ++ others) = .ok content := by
  cases hload : PrintSentence.loadStarting tree path with
  | error fault =>
      rw [PrintSentence.run_of_unloaded hread h.printed hload] at hrun
      cases hrun
      cases hstatus
  | ok loaded =>
      obtain ⟨g, S⟩ := loaded
      rw [WriteSentences.run_eq_serve hread'] at hrun'
      have houtcome := WriteSentences.outcome_of_serve hrun'
      obtain ⟨g', S', seed, count', output', texts, writes, -⟩ :=
        houtcome.exists_writes hstatus'
      obtain ⟨rfl, rfl, hseed, rfl, rfl⟩ := h.uses_eq hload writes.uses
      obtain ⟨rest, hderived⟩ := writes.derived
      obtain ⟨content, hencoded, hgains⟩ := writes.gains
      rw [h.print_eq hread hload hseed] at hrun
      obtain ⟨⟨result, mid⟩, hresult, rfl⟩ := Option.map_eq_some_iff.1 hrun
      obtain ⟨text, rfl, htext⟩ := PrintSentence.exists_eq_ok_of_status hstatus
      have hpositive := h.positive
      obtain ⟨n, hn⟩ : ∃ n, count'.toNat = n + 1 := ⟨count'.toNat - 1, by omega⟩
      rw [hn] at hderived
      obtain ⟨result, others, mid', hfirst, -, htexts⟩ := generateEach_succ_iff.1 hderived
      obtain ⟨first, texts, rfl, rfl, -⟩ := List.map_eq_cons_iff.1 htexts
      rw [h.limit] at hfirst
      obtain ⟨hsame, -⟩ := generate_unique hresult hfirst
      obtain rfl : text = first := Except.ok.inj hsame
      obtain rfl : text = s := by
        have hline := congrArg String.toList (htext.symm.trans hout)
        apply String.toList_inj.1
        simpa using hline
      refine ⟨String.join (texts.map SentenceFile.line), content, hgains.found, ?_⟩
      rw [← hencoded, List.map_cons, String.join_cons]

/-- A failure that is printed is printed by the program that writes, too, and no file is written. -/
theorem fails_as_printed {m : String}
    (hload : ∃ loaded, PrintSentence.loadStarting tree path = .ok loaded)
    (hdisplayed : (WriteSentences.Options.ofSettings c').displayed = true →
      count ≤ SentenceStream.maxDisplayed)
    (hhold : tree.CanHold (tree.path output) SentenceFile.asideNameLength)
    (hrun : PrintSentence.run fuel entropy program arguments tree = some r)
    (hstatus : r.status = .ok 1) (hout : r.out = "ERROR: " ++ m ++ "\n")
    (hprints : WriteSentences.Prints console r.out) :
    (∃ r', WriteSentences.run console fuel entropy' program' arguments' tree = some r') ∧
      ∀ fuel' r', WriteSentences.run console fuel' entropy' program' arguments' tree = some r' →
        r'.status = .ok 1 ∧ r'.out = "ERROR: " ++ m ++ "\n" ∧
          tree.GainsDirectories r'.tree (tree.path output) := by
  obtain ⟨⟨g, S⟩, hload⟩ := hload
  obtain ⟨seed, hseed, -⟩ := h.seed
  rw [h.print_eq hread hload hseed] at hrun
  obtain ⟨⟨result, mid⟩, hresult, rfl⟩ := Option.map_eq_some_iff.1 hrun
  obtain ⟨failure, rfl, hunder, habout, hline⟩ := PrintSentence.exists_eq_error_of_status hstatus
  have huses := h.uses hload hseed hdisplayed
  have hprepare := WriteSentences.prepare_eq_ok_iff.2 ⟨g, S, seed, count, output, huses, rfl⟩
  have hcount : count.toNat ≠ 0 := by
    have hpositive := h.positive
    omega
  rw [String.empty_append] at hline
  have hm := hline.symm.trans hout
  rw [hline] at hprints
  rw [← h.limit] at hresult hunder
  have hfails {fuel' : Nat} {source : Choice.Source}
      (hsame : generate g.table (WriteSentences.Options.ofSettings c').limit.limit?
        Choice.Source.ask fuel' (some S) (.ofSeed seed) = some (.error failure, source)) :
      ∃ r', WriteSentences.run console fuel' entropy' program' arguments' tree = some r' ∧
        r'.status = .ok 1 ∧ r'.out = errorLine (.derivation failure) ∧
        tree.GainsDirectories r'.tree (tree.path output) :=
    WriteSentences.exists_run_of_fails console program' hread' huses hcount hhold hsame hunder
      habout hprints
  refine ⟨?_, ?_⟩
  · obtain ⟨r', hr', -⟩ := hfails hresult
    exact ⟨r', hr'⟩
  · intro fuel' r' hrun'
    obtain ⟨result', mid', hresult'⟩ :=
      WriteSentences.exists_generate_of_run hread' huses hcount hhold hrun'
    obtain ⟨rfl, rfl⟩ := generate_unique hresult hresult'
    obtain ⟨r'', hr'', hstatus'', hout'', hgains⟩ := hfails hresult'
    obtain rfl : r'' = r' := Option.some.inj (hr''.symm.trans hrun')
    exact ⟨hstatus'', hout''.trans hm, hgains⟩

/-- When no grammar with a start symbol is found, both programs change nothing and say so, if the
console has bytes for what is to be said. -/
theorem exists_runs_of_unloaded
    (hunloaded : ∃ fault, PrintSentence.loadStarting tree path = .error fault) (fuel : Nat) :
    (∃ r, PrintSentence.run fuel entropy program arguments tree = some r ∧ r.status = .ok 1 ∧
      r.tree = tree) ∧
    ∃ fault r', WriteSentences.prepare entropy' tree (.ofSettings c') = .error fault ∧
      WriteSentences.run console fuel entropy' program' arguments' tree = some r' ∧
      r'.tree = tree ∧ (WriteSentences.Prints console (errorLine fault) → r'.status = .ok 1) := by
  obtain ⟨fault', hprepare, habout⟩ := h.exists_unloaded_iff.1 hunloaded
  obtain ⟨fault, hload⟩ := hunloaded
  have hrun : WriteSentences.run console fuel entropy' program' arguments' tree =
      some (WriteSentences.faultResult console fault' tree) := by
    rw [WriteSentences.run_eq_serve hread', WriteSentences.serve, hprepare]
  refine ⟨⟨_, PrintSentence.run_of_unloaded hread h.printed hload, rfl, rfl⟩, fault', _, hprepare,
    hrun, ?_, ?_⟩
  · obtain ⟨-, -, hanswer⟩ | ⟨other, -, hanswer⟩ :=
      WriteSentences.faultResult_cases console fault' tree
    · rw [hanswer]
    · rw [hanswer]
  · intro hprints
    rw [WriteSentences.faultResult_of_prints habout hprints]

end Runs

end SameRequest

/-! ## Requests -/

/-- The text of a grammar with one production. -/
def oneBodySource : Bytes := [0x7B, 0x20, 0x3C, 0x53, 0x3E, 0x20, 0x61, 0x20, 0x3B, 0x20, 0x7D]

def oneBody : FileTree :=
  .ofPaths (.ofNames ["tmp", "tmp_working"]) [("g", .file oneBodySource)]

def seedSwitch : Switch where
  names := ["--seed"]
  takes := .integer
  help := "random seed, for reproducible sentences"

theorem read_seeded {grammar : String} (hgrammar : grammar.toList.head? ≠ some '-') :
    PrintSentence.interface.read [grammar, "--seed", "1"] =
      .ok { operand? := some grammar, given := [("--seed", .integer 1)] } := by
  have hne : grammar ≠ "--" := by
    rintro rfl
    exact hgrammar rfl
  have hclassify : PrintSentence.interface.classifyAll [grammar, "--seed", "1"] =
      .ok [.plain grammar, .switch seedSwitch "--seed" none, .plain "1"] :=
    Interface.classifyAll_cons hne (Interface.classify_plain hgrammar) rfl
  refine Interface.read_eq_ok hclassify ?_ rfl
  apply Interface.takeAll_operand rfl rfl (by simp)
  apply Interface.takeAll_value (by decide) rfl
  exact Interface.takeAll_nil _ _

/-- No expansion is allowed, and so the source is not asked. -/
def printArguments : List String := ["g", "--max_steps", "0", "--seed", "1"]

def printSettings : Settings where
  operand? := some "g"
  given := [("--seed", .integer 1), ("--max_steps", .integer 0)]

theorem read_printArguments : PrintSentence.interface.read printArguments = .ok printSettings := by
  have hclassify : PrintSentence.interface.classifyAll printArguments = .ok [.plain "g",
      .switch (integerSwitch "--max_steps") "--max_steps" none, .plain "0",
      .switch seedSwitch "--seed" none, .plain "1"] := rfl
  refine Interface.read_eq_ok hclassify ?_ rfl
  apply Interface.takeAll_operand rfl rfl (by simp)
  apply Interface.takeAll_value (by decide) rfl
  apply Interface.takeAll_value (by decide) rfl
  exact Interface.takeAll_nil _ _

def grammarArguments : List String := ["--grammar", "g", "--max_steps", "0", "--seed", "1"]

/-- What the arguments about the grammar are, one by one. -/
def grammarSwitches : List Argument :=
  [.switch WriteSentences.fileSwitch "--grammar" none, .plain "g",
    .switch (integerSwitch "--max_steps") "--max_steps" none, .plain "0",
    .switch (integerSwitch "--seed") "--seed" none, .plain "1"]

theorem classifyAll_grammarArguments :
    WriteSentences.interface.classifyAll grammarArguments = .ok grammarSwitches := rfl

/-- Whatever has been given before, the arguments about the grammar are given, too. -/
theorem takeAll_grammarSwitches (c : Settings) :
    WriteSentences.interface.takeAll c [] grammarSwitches = .ok ({ c with
      given := ("--seed", .integer 1) :: ("--max_steps", .integer 0) ::
        ("--grammar", .word "g") :: c.given }, []) := by
  apply Interface.takeAll_value (by decide) rfl
  apply Interface.takeAll_value (by decide) rfl
  apply Interface.takeAll_value (by decide) rfl
  exact Interface.takeAll_nil _ _

def writeArguments (output : String) : List String := "--output" :: output :: grammarArguments

def writeSettings (output : String) : Settings where
  given := [("--seed", .integer 1), ("--max_steps", .integer 0), ("--grammar", .word "g"),
    ("--output", .word output)]

/-- An output that does not begin with a dash is read, whatever else it is. -/
theorem read_writeArguments {output : String} (houtput : output.toList.head? ≠ some '-') :
    WriteSentences.interface.read (writeArguments output) = .ok (writeSettings output) := by
  have hne : output ≠ "--" := by
    rintro rfl
    exact houtput rfl
  have hswitch : WriteSentences.interface.classify "--output" =
      .ok (.switch WriteSentences.outputSwitch "--output" none) := rfl
  have hclassify := Interface.classifyAll_cons (by decide) hswitch
    (Interface.classifyAll_cons hne (Interface.classify_plain houtput) classifyAll_grammarArguments)
  refine Interface.read_eq_ok hclassify ?_ rfl
  apply Interface.takeAll_value (by decide) (Settings.take_word rfl houtput _)
  exact takeAll_grammarSwitches _

/-- The two requests are for sentences of one grammar, under one limit. -/
theorem sameRequest_writeSettings (output : String) : SameRequest 0 0 (.ofSettings printSettings)
    (.ofSettings (writeSettings output)) "g" output 1000 :=
  ⟨rfl, ⟨rfl, rfl⟩, rfl, ⟨1, rfl, rfl⟩, rfl, by decide, rfl, rfl⟩

section OneBody

variable {tree : FileTree} (hcontent : tree.content? (tree.path "g") = some oneBodySource)

include hcontent

theorem loadStarting_oneBody : PrintSentence.loadStarting tree "g" =
    .ok (⟨.ofList [(⟨"<S>"⟩, [[⟨"a"⟩]])], some ⟨"<S>"⟩⟩, ⟨"<S>"⟩) := by
  have hdecode : Encoding.utf8.decode oneBodySource = .ok _ := Encoding.decode_utf8_of_lt rfl
  rw [PrintSentence.loadStarting_eq_ok_iff, loadGrammar_eq_ok hcontent hdecode]
  exact ⟨rfl, rfl⟩

theorem exists_print_fails :
    ∃ r, PrintSentence.run 2 0 "print" printArguments tree = some r ∧ r.status = .ok 1 ∧
      r.out = "ERROR: " ++ "derivation did not finish within 0 expansions" ++ "\n" := by
  have hrun : PrintSentence.run 2 0 "print" printArguments tree =
      (generate _ _ Choice.Source.ask 2 _ _).map fun (result, _) =>
        PrintSentence.sentenceResult (.ofSettings printSettings) tree "" result :=
    PrintSentence.run_of_loaded read_printArguments rfl rfl rfl rfl (loadStarting_oneBody hcontent)
  exact ⟨_, hrun, rfl, rfl⟩

end OneBody

/-! ## Agreement -/

/-- Asked for the same, the two programs agree.  The sentence that the one prints is in the first
line of the file that the other writes.  A failure of the derivation that the one prints is printed
by the other, which leaves all files as they were, if its display of progress takes the sentences
and a file can be written where it is to be.  And one of them finds no grammar with a start symbol
just when the other does not; then both change nothing and end with exit code 1.  All this is meant
of a console that has bytes for what is printed. -/
theorem programs_agree (console : Codec) (entropy entropy' : Nat) (program program' : String)
    (arguments arguments' : List String) (tree : FileTree) (c c' : Settings) (path output : String)
    (count : Int) (hread : PrintSentence.interface.read arguments = .ok c)
    (hread' : WriteSentences.interface.read arguments' = .ok c')
    (hsame : SameRequest entropy entropy' (.ofSettings c) (.ofSettings c') path output count) :
    (∀ fuel fuel' r r' s, PrintSentence.run fuel entropy program arguments tree = some r →
      WriteSentences.run console fuel' entropy' program' arguments' tree = some r' →
      r.status = .ok 0 → r.out = s ++ "\n" → r'.status = .ok 0 →
      ∃ others content, r'.tree.content? (tree.path output) = some content ∧
        Encoding.utf8.encode (SentenceFile.line s ++ others) = .ok content) ∧
    (∀ fuel r m, PrintSentence.run fuel entropy program arguments tree = some r →
      (∃ loaded, PrintSentence.loadStarting tree path = .ok loaded) →
      ((WriteSentences.Options.ofSettings c').displayed = true →
        count ≤ SentenceStream.maxDisplayed) →
      tree.CanHold (tree.path output) SentenceFile.asideNameLength →
      r.status = .ok 1 → r.out = "ERROR: " ++ m ++ "\n" → WriteSentences.Prints console r.out →
      (∃ r', WriteSentences.run console fuel entropy' program' arguments' tree = some r') ∧
      ∀ fuel' r', WriteSentences.run console fuel' entropy' program' arguments' tree = some r' →
        r'.status = .ok 1 ∧ r'.out = "ERROR: " ++ m ++ "\n" ∧
          tree.GainsDirectories r'.tree (tree.path output)) ∧
    ((∃ fault, PrintSentence.loadStarting tree path = .error fault) ↔
      ∃ fault, WriteSentences.prepare entropy' tree (.ofSettings c') = .error fault ∧
        fault.isAboutGrammar = true) ∧
    ((∃ fault, PrintSentence.loadStarting tree path = .error fault) → ∀ fuel,
      (∃ r, PrintSentence.run fuel entropy program arguments tree = some r ∧ r.status = .ok 1 ∧
        r.tree = tree) ∧
      ∃ fault r', WriteSentences.prepare entropy' tree (.ofSettings c') = .error fault ∧
        WriteSentences.run console fuel entropy' program' arguments' tree = some r' ∧
        r'.tree = tree ∧
        (WriteSentences.Prints console (errorLine fault) → r'.status = .ok 1)) := by
  refine ⟨?_, ?_, hsame.exists_unloaded_iff, ?_⟩
  · intro fuel fuel' r r' s hrun hrun' hstatus hout hstatus'
    exact hsame.begins_with_printed hread hread' hrun hrun' hstatus hout hstatus'
  · intro fuel r m hrun hload hdisplayed hhold hstatus hout hprints
    exact hsame.fails_as_printed hread hread' hload hdisplayed hhold hrun hstatus hout hprints
  · intro hunloaded fuel
    exact hsame.exists_runs_of_unloaded hread hread' hunloaded fuel

/-- A request for two sentences of a grammar, and one for the first of them. -/
theorem sameRequest_choosing (grammar : String) : SameRequest 0 0
    (.ofSettings { operand? := some grammar, given := [("--seed", .integer 1)] })
    (.ofSettings (WriteSentences.requestSettings 2 grammar "d/out")) grammar "d/out" 2 :=
  ⟨rfl, ⟨rfl, rfl⟩, rfl, ⟨1, rfl, rfl⟩, rfl, by decide, rfl, rfl⟩

/-- In one request the first line of the file is the sentence that is printed, whichever that is; in
another the derivation fails; and in a third there is no grammar. -/
theorem programs_agree_choosing :
    (∃ r r' s others content,
      PrintSentence.run 9 0 "print" ["g", "--seed", "1"] WriteSentences.choosing = some r ∧
      WriteSentences.run Encoding.utf8.codec 9 0 "write" (WriteSentences.request "2" "g" "d/out")
        WriteSentences.choosing = some r' ∧
      r.out = s ++ "\n" ∧
      r'.tree.content? (WriteSentences.choosing.path "d/out") = some content ∧
      Encoding.utf8.encode (SentenceFile.line s ++ others) = .ok content) ∧
    (∃ r', WriteSentences.run Encoding.utf8.codec 2 0 "write" (writeArguments "o") oneBody =
        some r' ∧ r'.status = .ok 1 ∧
      r'.out = "ERROR: " ++ "derivation did not finish within 0 expansions" ++ "\n" ∧
      oneBody.GainsDirectories r'.tree (oneBody.path "o")) ∧
    ∃ r r', PrintSentence.run 9 0 "print" ["m", "--seed", "1"] WriteSentences.choosing = some r ∧
      WriteSentences.run Encoding.utf8.codec 9 0 "write" (WriteSentences.request "2" "m" "d/out")
        WriteSentences.choosing = some r' ∧
      r.status = .ok 1 ∧ r.tree = WriteSentences.choosing ∧ r'.status = .ok 1 ∧
      r'.tree = WriteSentences.choosing := by
  refine ⟨?_, ?_, ?_⟩
  · have hread : PrintSentence.interface.read ["g", "--seed", "1"] = .ok _ :=
      read_seeded (by decide)
    have hread' : WriteSentences.interface.read (WriteSentences.request "2" "g" "d/out") = .ok _ :=
      WriteSentences.read_choosing (by decide)
    have hload : PrintSentence.loadStarting WriteSentences.choosing "g" =
        .ok (WriteSentences.twoBodies, ⟨"<S>"⟩) :=
      PrintSentence.loadStarting_eq_ok_iff.2 ⟨WriteSentences.load_twoBodies, rfl⟩
    obtain ⟨s, -, rest, -, hderives⟩ :=
      WriteSentences.generate_twoBodies (Choice.Source.isSeeded_ofSeed 1)
    have hrun : PrintSentence.run 9 0 "print" ["g", "--seed", "1"] WriteSentences.choosing =
        some { status := .ok 0, out := s ++ "\n", tree := WriteSentences.choosing } := by
      rw [PrintSentence.run_of_loaded hread rfl rfl rfl rfl hload]
      refine (congrArg _ hderives).trans ?_
      change some (PrintSentence.sentenceResult _ _ "" (.ok s)) = _
      simp [PrintSentence.sentenceResult]
    obtain ⟨-, -, -, -, -, r', -, hrun', hstatus', -⟩ := WriteSentences.exists_run_twoBodies
    obtain ⟨hbegins, -⟩ := programs_agree Encoding.utf8.codec 0 0 "print" "write" _ _ _ _ _ _ _ _
      hread hread' (sameRequest_choosing "g")
    obtain ⟨others, content, hcontent, hencode⟩ :=
      hbegins 9 9 _ r' s hrun hrun' rfl rfl hstatus'
    exact ⟨_, r', s, others, content, hrun, hrun', rfl, hcontent, hencode⟩
  · have hcontent : oneBody.content? (oneBody.path "g") = some oneBodySource := rfl
    obtain ⟨r, hrun, hstatus, hout⟩ := exists_print_fails hcontent
    have hhold : oneBody.CanHold (oneBody.path "o") SentenceFile.asideNameLength :=
      ⟨oneBody, oneBody.home, rfl, rfl, rfl, rfl⟩
    have hsame := sameRequest_writeSettings "o"
    obtain ⟨-, hfails, -⟩ := programs_agree Encoding.utf8.codec 0 0 "print" "write" _ _ _ _ _ _ _ _
      read_printArguments (read_writeArguments (by decide)) hsame
    obtain ⟨⟨r', hrun'⟩, hanswer⟩ := hfails 2 r _ hrun ⟨_, loadStarting_oneBody hcontent⟩
      (by decide) hhold hstatus hout (WriteSentences.prints_utf8 _)
    exact ⟨r', hrun', hanswer 2 r' hrun'⟩
  · have hload : PrintSentence.loadStarting WriteSentences.choosing "m" =
        .error (.unreadable "m" (some "no such file")) := rfl
    obtain ⟨-, -, -, hunloaded⟩ := programs_agree Encoding.utf8.codec 0 0 "print" "write" _ _
      WriteSentences.choosing _ _ "m" "d/out" 2 (read_seeded (by decide))
      (WriteSentences.read_choosing (by decide)) (sameRequest_choosing "m")
    obtain ⟨⟨r, hrun, hstatus, htree⟩, fault, r', -, hrun', htree', hprinted⟩ :=
      hunloaded ⟨_, hload⟩ 9
    exact ⟨r, r', hrun, hrun', hstatus, htree, hprinted (WriteSentences.prints_utf8 _), htree'⟩

/-! ## Requests that the programs do not agree on -/

/-- A request of which the directory of the output is there, and of which the failure of a
derivation is printed by the one program only: the other ends with a fault of the path. -/
def Differ (tree : FileTree) (arguments arguments' : List String) (output : String) (count : Int) :
    Prop :=
  ∃ c c' r r' m cause, PrintSentence.interface.read arguments = .ok c ∧
    WriteSentences.interface.read arguments' = .ok c' ∧
    SameRequest 0 0 (.ofSettings c) (.ofSettings c') "g" output count ∧
    (tree.path output).parent?.all tree.isDirectory = true ∧
    (∃ loaded, PrintSentence.loadStarting tree "g" = .ok loaded) ∧
    PrintSentence.run 2 0 "print" arguments tree = some r ∧ r.status = .ok 1 ∧
    r.out = "ERROR: " ++ m ++ "\n" ∧
    WriteSentences.run Encoding.utf8.codec 2 0 "write" arguments' tree = some r' ∧
    r'.status = .error (.path cause)

def longName : String := String.ofList (List.replicate 213 'd')

/-- Directories that leave no room for a file aside in the last of them. -/
def crowded : FileTree := oneBody.nested longName 19

def deepOutput : String :=
  String.ofList (['/'].intercalate (List.replicate 19 (List.replicate 213 'd') ++ [['o']]))

theorem path_deepOutput : crowded.path deepOutput =
    ⟨oneBody.home, List.replicate 19 longName ++ ["o"]⟩ := by
  have hhead : deepOutput.toList.head? ≠ some '/' := by
    rw [deepOutput, String.toList_ofList]
    decide
  have hslash : ∀ name ∈ List.replicate 19 (List.replicate 213 'd') ++ [['o']], '/' ∉ name := by
    intro name hname
    obtain hname | hname := List.mem_append.1 hname
    · rw [List.eq_of_mem_replicate hname]
      intro hmem
      exact absurd (List.eq_of_mem_replicate hmem) (by decide)
    · rw [List.mem_singleton.1 hname]
      decide
  rw [FileTree.path, if_neg hhead, crowded, FileTree.home_nested, deepOutput,
    FileTree.splitSlashes_intercalate (by simp) hslash, List.map_append, List.map_replicate]
  rfl

theorem toList_longName : longName.toList = List.replicate 213 'd' := String.toList_ofList

theorem utf8ByteSize_longName : longName.utf8ByteSize = 213 :=
  FileTree.utf8ByteSize_replicate 213 'd'

theorem longName_ne_of_utf8ByteSize {name : String} (h : name.utf8ByteSize ≠ 213) :
    longName ≠ name := by
  rintro rfl
  exact h utf8ByteSize_longName

theorem longName_ne : longName ≠ "" ∧ longName ≠ "." ∧ longName ≠ ".." :=
  ⟨longName_ne_of_utf8ByteSize (by decide), longName_ne_of_utf8ByteSize (by decide),
    longName_ne_of_utf8ByteSize (by decide)⟩

theorem isNewPlace_deepOutput :
    crowded.IsNewPlace (crowded.path deepOutput) (List.replicate 19 longName) "o" := by
  have hlength : (crowded.path deepOutput).length ≤ FileTree.maxPathLength := by
    rw [path_deepOutput, FileTree.Path.length, FileTree.total_append, FileTree.total_replicate,
      utf8ByteSize_longName, List.length_append, List.length_replicate]
    decide
  have hzero : ∀ name ∈ (crowded.path deepOutput).names, '\x00' ∉ name.toList := by
    rw [path_deepOutput]
    intro name hname
    obtain hname | hname := List.mem_append.1 hname
    · rw [List.eq_of_mem_replicate hname, toList_longName]
      intro hmem
      exact absurd (List.eq_of_mem_replicate hmem) (by decide)
    · rw [List.mem_singleton.1 hname]
      decide
  have hcheck : (crowded.path deepOutput).check = .ok () := by
    refine FileTree.Path.check_eq_ok_iff.2 ⟨hzero, ?_, hlength⟩
    rw [path_deepOutput]
    exact FileTree.concat_ne_singleton_empty (by decide) _
  have hshort : ∀ name ∈ List.replicate 19 longName,
      name.utf8ByteSize ≤ FileTree.maxNameLength := by
    intro name hname
    rw [List.eq_of_mem_replicate hname, utf8ByteSize_longName]
    decide
  have hway := FileTree.isWay_nested (t := oneBody) longName_ne rfl 19
  rw [path_deepOutput] at hcheck ⊢
  exact ⟨hcheck, ⟨0, rfl⟩, hway, hshort, by decide, by decide⟩

theorem hasRoom_deepOutput :
    (oneBody.home.along (List.replicate 19 longName)).hasRoom SentenceFile.asideNameLength =
      false := by
  rw [FileTree.Place.hasRoom, FileTree.Place.reversed_along_replicate longName_ne,
    FileTree.total_append, FileTree.total_replicate, utf8ByteSize_longName]
  rfl

theorem isDirectory_deepOutput :
    (crowded.path deepOutput).parent?.all crowded.isDirectory = true := by
  have hnew := isNewPlace_deepOutput
  have hparent : (crowded.path deepOutput).parent? =
      some ⟨oneBody.home, List.replicate 19 longName⟩ := by
    rw [path_deepOutput]
    simp [FileTree.Path.parent?, List.replicate, longName_ne.1]
  have hprefix : List.replicate 19 longName <+: (crowded.path deepOutput).names := by
    rw [path_deepOutput]
    exact List.prefix_append _ _
  have hcheck := FileTree.Path.check_of_isPrefix hnew.check hprefix (by simp [List.replicate])
  rw [path_deepOutput] at hcheck hnew
  have hlook := FileTree.look_of_isWay hcheck hnew.way hnew.short
  rw [hparent, Option.all_some, FileTree.isDirectory, hlook]

theorem at?_crowded_of_head? {place : FileTree.Place} {name : String}
    (hname : place.reversed.head? = some name) (hsize : name.utf8ByteSize ≠ 213) :
    crowded.at? place = oneBody.at? place := by
  refine FileTree.at?_nested longName_ne (fun h => ?_) oneBody 19
  rw [hname, Option.some.injEq] at h
  exact longName_ne_of_utf8ByteSize hsize h.symm

theorem content?_crowded : crowded.content? (crowded.path "g") = some oneBodySource := by
  have hhome : crowded.at? oneBody.home = some .directory :=
    at?_crowded_of_head? rfl (by decide)
  have hfile : crowded.at? (oneBody.home.child "g") = some (.file oneBodySource) :=
    at?_crowded_of_head? rfl (by decide)
  have hpath : crowded.path "g" = ⟨oneBody.home, ["g"]⟩ := by
    rw [FileTree.path, if_neg (by decide), crowded, FileTree.home_nested]
    rfl
  have hwalk : crowded.walk oneBody.home ["g"] = .ok (oneBody.home.child "g") := by
    rw [FileTree.walk_cons hhome (by decide), FileTree.Place.follow_of_ne (by decide) (by decide)
      (by decide)]
    rfl
  have hcheck : FileTree.Path.check ⟨oneBody.home, ["g"]⟩ = .ok () := rfl
  simp [FileTree.content?, FileTree.look, hpath, hcheck, hwalk, hfile, bind, Except.bind]

/-- A tree in which nothing can be made where paths start. -/
def closed : FileTree := { oneBody with
  refusal? := fun place => if place = oneBody.home then some .busy else none }

/-- The programs do not agree where there is no room for the file aside, nor where the directory of
the output is closed. -/
theorem programs_differ :
    Differ crowded printArguments (writeArguments deepOutput) deepOutput 1000 ∧
      Differ closed printArguments (writeArguments "o") "o" 1000 := by
  constructor
  · have houtput : deepOutput.toList.head? ≠ some '-' := by
      rw [deepOutput, String.toList_ofList]
      decide
    have hread' := read_writeArguments houtput
    have hload := loadStarting_oneBody content?_crowded
    obtain ⟨r, hrun, hstatus, hout⟩ := exists_print_fails content?_crowded
    have huses := (sameRequest_writeSettings deepOutput).uses hload rfl (by decide)
    have hnames : (crowded.path deepOutput).names = List.replicate 19 longName ++ ["o"] := by
      rw [path_deepOutput]
    have hstart : (crowded.path deepOutput).start = oneBody.home := by
      rw [path_deepOutput]
    obtain ⟨hmake, hwalk⟩ :=
      isNewPlace_deepOutput.parent_eq hnames fun _ => FileTree.start_path_of_names
    rw [hstart] at hwalk
    obtain ⟨r', cause, hrun', hstatus'⟩ := WriteSentences.exists_run_of_not_canHold hread' huses
      hmake hwalk (.inl hasRoom_deepOutput)
    exact ⟨_, _, r, r', _, cause, read_printArguments, hread', sameRequest_writeSettings deepOutput,
      isDirectory_deepOutput, ⟨_, hload⟩, hrun, hstatus, hout, hrun', hstatus'⟩
  · have hcontent : closed.content? (closed.path "g") = some oneBodySource := rfl
    have hread' : WriteSentences.interface.read (writeArguments "o") = .ok (writeSettings "o") :=
      read_writeArguments (by decide)
    have hload := loadStarting_oneBody hcontent
    obtain ⟨r, hrun, hstatus, hout⟩ := exists_print_fails hcontent
    have hsame := sameRequest_writeSettings "o"
    have hmake : (closed.path "o").parent?.elim (closed, none) closed.makeDirectories =
        (closed, none) := rfl
    have hwalk : (closed.path "o").parent?.elim (.ok closed.home)
        (fun p => closed.walk p.start p.names) = .ok oneBody.home := rfl
    obtain ⟨r', cause, hrun', hstatus'⟩ := WriteSentences.exists_run_of_not_canHold hread'
      (hsame.uses hload rfl (by decide)) hmake hwalk (.inr rfl)
    exact ⟨_, _, r, r', _, cause, read_printArguments, hread', hsame, rfl, ⟨_, hload⟩, hrun,
      hstatus, hout, hrun', hstatus'⟩

end CommandLine

end BraceGrammar
