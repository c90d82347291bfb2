import BraceGrammar.CommandLine.WriteSentences.Outcome
import BraceGrammar.Proofs.Arguments
import BraceGrammar.Proofs.Failures
import BraceGrammar.Proofs.Lines
import BraceGrammar.Proofs.Loading

/-!
# The program that writes sentences, from end to end

A run first finds out what there is to do.  It goes on only with a grammar, a start symbol and a
value for each setting (`prepare_eq_ok_iff`); a fault in a grammar that stops it here is that of the
file or that of the start symbol (`prepare_eq_error_iff`).  Writing the stream then ends in one of
three ways, and each of them has its exit code, unless the console has no bytes for what is to be
printed (`faultResult_cases`).
-/

namespace BraceGrammar

open BraceGrammar.Derivation

/-- Without a limit, a derivation begins with the body that the source chooses. -/
theorem Derivation.generate_of_bodyAt? {σ : Type} {T : Table} {ask : Nat → σ → Int × σ}
    {S : Symbol} {bodies : List Body} {body : Body} {source : σ} (hbracketed : S.isBracketed = true)
    (hfind : T.bodies? S = some bodies)
    (hbody : bodyAt? bodies (ask bodies.length source).1 = some body) (fuel : Nat) :
    generate T none ask (fuel + 1) (some S) source =
      (run T none ask fuel ⟨body, [], 1, (ask bodies.length source).2⟩).map fun e =>
        (e.result.map sentence, e.source) := by
  have hplain : S.isPlain = false := isPlain_eq_false hbracketed
  have hsome : bodies ≠ [] := by
    rintro rfl
    simp [bodyAt?] at hbody
  simp [generate, derive, run, step, hplain, expand, hfind, hbody, exceeded?, hsome]

namespace CommandLine

variable {fuel entropy : Nat} {tree : FileTree} {path : String} {fault : Fault}

namespace WriteSentences

variable {console : Codec} {o : Options} {job : Job}

/-! ## Printing -/

theorem say_of_prints {text : String} (h : Prints console text) (code : Nat) (tree : FileTree) :
    say console code text tree = { status := .ok code, out := text, tree } := by
  obtain ⟨bytes, hbytes⟩ := h
  rw [say, hbytes]

/-- Either a text is printed or there is a fault that is not about the grammar. -/
theorem say_cases (console : Codec) (code : Nat) (text : String) (tree : FileTree) :
    (Prints console text ∧
      say console code text tree = { status := .ok code, out := text, tree }) ∨
    ∃ cause, console.append [] text = .error cause ∧
      say console code text tree = { status := .error (.unencodable cause), tree } := by
  cases htext : console.append [] text with
  | ok bytes => exact .inl ⟨⟨bytes, htext⟩, say_of_prints ⟨bytes, htext⟩ code tree⟩
  | error cause =>
      refine .inr ⟨cause, rfl, ?_⟩
      rw [say, htext]

/-- A fault about the grammar is printed if it can be; otherwise there is a fault that is not about
the grammar. -/
theorem faultResult_cases (console : Codec) (fault : Fault) (tree : FileTree) :
    (fault.isAboutGrammar = true ∧ Prints console (errorLine fault) ∧
      faultResult console fault tree = { status := .ok 1, out := errorLine fault, tree }) ∨
    ∃ other, other.isAboutGrammar = false ∧
      faultResult console fault tree = { status := .error other, tree } := by
  unfold faultResult
  by_cases habout : fault.isAboutGrammar = true
  · rw [if_pos habout]
    obtain ⟨hprints, hsay⟩ | ⟨cause, -, hsay⟩ := say_cases console 1 (errorLine fault) tree
    · exact .inl ⟨habout, hprints, hsay⟩
    · exact .inr ⟨_, rfl, hsay⟩
  · rw [if_neg habout]
    exact .inr ⟨fault, Bool.eq_false_iff.2 habout, rfl⟩

theorem faultResult_of_prints (habout : fault.isAboutGrammar = true)
    (hprints : Prints console (errorLine fault)) (tree : FileTree) :
    faultResult console fault tree = { status := .ok 1, out := errorLine fault, tree } := by
  rw [faultResult, if_pos habout, say_of_prints hprints]

/-! ## What there is to do -/

theorem prepare_eq_ok_iff : prepare entropy tree o = .ok job ↔
    ∃ g S seed count output, o.Uses entropy tree g S seed count output ∧
      job = ⟨g, .ofSeed seed, ⟨S, o.limit.limit?, count.toNat⟩, output⟩ := by
  simp only [prepare, bind_eq_ok_iff, mapError_eq_ok_iff, SentenceStream.ofGrammar_eq_ok_iff,
    Grammar.requireStart_eq_ok_iff]
  constructor
  · rintro ⟨path, hfile, g, hload, seed, hseed, S, hstart, count, hcount, stream,
      ⟨S', hstart', hdisplayed, rfl⟩, output, houtput, hjob⟩
    obtain rfl : S = S' := Option.some.inj (hstart.symm.trans hstart')
    exact ⟨g, S, seed, count, output,
      ⟨⟨path, hfile, hload⟩, hstart, hseed, hdisplayed, hcount, houtput⟩, (Except.ok.inj hjob).symm⟩
  · rintro ⟨g, S, seed, count, output,
      ⟨⟨path, hfile, hload⟩, hstart, hseed, hdisplayed, hcount, houtput⟩, rfl⟩
    exact ⟨path, hfile, g, hload, seed, hseed, S, hstart, count, hcount, _,
      ⟨S, hstart, hdisplayed, rfl⟩, output, houtput, rfl⟩

/-- Why a fault in a grammar is found before anything is written: the file cannot be read, or there
is no start symbol. -/
theorem prepare_eq_error_iff (hfault : fault.isAboutGrammar = true) :
    prepare entropy tree o = .error fault ↔ ∃ path, o.file.get "" .grammarFile = .ok path ∧
      (loadGrammar tree path fileCodec = .error fault ∨
        ∃ g seed, loadGrammar tree path fileCodec = .ok g ∧ o.seed.get entropy .seed = .ok seed ∧
          g.start? = none ∧ fault = .noStart Grammar.Lack.start.message) := by
  have hsetting {α : Type} {s : Setting α} {absent : α} {name : BlankSetting} :
      s.get absent name ≠ .error fault := by
    intro h
    rw [Setting.isAboutGrammar_of_get h] at hfault
    cases hfault
  simp only [prepare, bind_eq_error_iff, mapError_eq_error_iff, mapError_eq_ok_iff, hsetting,
    Grammar.requireStart_eq_ok_iff, Grammar.requireStart_eq_error_iff, false_or]
  constructor
  · rintro ⟨path, hfile, h⟩
    refine ⟨path, hfile, ?_⟩
    obtain hload | ⟨g, hload, seed, hseed, hstart | ⟨S, hstart, count, hcount, h⟩⟩ := h
    · exact .inl hload
    · obtain ⟨_, ⟨hnone, rfl⟩, rfl⟩ := hstart
      exact .inr ⟨g, seed, hload, hseed, hnone, rfl⟩
    · obtain ⟨refusal, hrefusal, rfl⟩ | ⟨stream, -, h⟩ := h
      · rw [SentenceStream.eq_count_of_ofGrammar hstart hrefusal] at hfault
        cases hfault
      · simp only [pure, Except.pure, reduceCtorEq, and_false, exists_const] at h
  · rintro ⟨path, hfile, hload | ⟨g, seed, hload, hseed, hstart, rfl⟩⟩
    · exact ⟨path, hfile, .inl hload⟩
    · exact ⟨path, hfile, .inr ⟨g, hload, seed, hseed, .inl ⟨_, ⟨hstart, rfl⟩, rfl⟩⟩⟩

/-- The program goes by one grammar and one value for each setting. -/
theorem Options.Uses.unique {g g' : Grammar} {S S' : Symbol} {seed seed' count count' : Int}
    {output output' : String} (h : o.Uses entropy tree g S seed count output)
    (h' : o.Uses entropy tree g' S' seed' count' output') :
    g = g' ∧ S = S' ∧ seed = seed' ∧ count = count' ∧ output = output' := by
  obtain ⟨path, hfile, hload⟩ := h.grammar
  obtain ⟨path', hfile', hload'⟩ := h'.grammar
  obtain rfl := Except.ok.inj (hfile.symm.trans hfile')
  obtain rfl := Except.ok.inj (hload.symm.trans hload')
  exact ⟨rfl, Option.some.inj (h.start.symm.trans h'.start),
    Except.ok.inj (h.seed.symm.trans h'.seed), Except.ok.inj (h.count.symm.trans h'.count),
    Except.ok.inj (h.output.symm.trans h'.output)⟩

/-! ## Runs that begin to write -/

theorem run_eq_serve {program : String} {arguments : List String} {c : Settings}
    (hread : interface.read arguments = .ok c) :
    run console fuel entropy program arguments tree =
      serve console fuel entropy (.ofSettings c) tree := by
  simp only [run, hread]

section Uses

variable {program output : String} {arguments : List String} {c : Settings} {g : Grammar}
  {S : Symbol} {seed count : Int} {r : Result}
  (hread : interface.read arguments = .ok c)
  (huses : (Options.ofSettings c).Uses entropy tree g S seed count output)

include hread huses

/-- A run is the writing of a stream, and what it comes to is printed. -/
theorem run_of_uses : run console fuel entropy program arguments tree =
    (SentenceFile.writeStream g.table Choice.Source.ask fuel tree output
      (.ok Encoding.utf8.codec) ⟨S, (Options.ofSettings c).limit.limit?, count.toNat⟩
      (.ofSeed seed)).map fun w =>
        match w.result with
        | .error fault =>
          faultResult console ((Options.ofSettings c).limit.faultUnder fault) w.tree
        | .ok n => say console 0 (writtenLine n output) w.tree := by
  have hprepare := prepare_eq_ok_iff.2 ⟨g, S, seed, count, output, huses, rfl⟩
  rw [run_eq_serve hread, serve, hprepare]
  exact congrArg (fun codec => (SentenceFile.writeStream _ _ _ _ _ codec _ _).map _) fileCodec_eq

/-- Where a file cannot be held, a run ends with a fault of the path before the first derivation. -/
theorem exists_run_of_not_canHold {u : FileTree} {directory : FileTree.Place}
    (hmake : (tree.path output).parent?.elim (tree, none) tree.makeDirectories = (u, none))
    (hwalk : (tree.path output).parent?.elim (.ok u.home) (fun p => u.walk p.start p.names) =
      .ok directory)
    (hfull : directory.hasRoom SentenceFile.asideNameLength = false ∨
      (u.refusal? directory).isSome = true) :
    ∃ r cause, run console fuel entropy program arguments tree = some r ∧
      r.status = .error (.path cause) := by
  obtain ⟨cause, hwrite⟩ := SentenceFile.write_of_not_canHold hmake hwalk hfull
  refine ⟨{ status := .error (.path cause), tree := u }, cause, ?_, rfl⟩
  rw [run_of_uses hread huses, SentenceFile.writeStream, hwrite, Option.map_some]
  have hunder : (Options.ofSettings c).limit.faultUnder (.path cause) = .path cause := rfl
  have habout := Fault.isAboutGrammar_path cause
  simp only [hunder, faultResult, habout, Bool.false_eq_true, if_false]

variable (console program) in
/-- When a file can be written and all derivations end with a sentence, the file is written. -/
theorem exists_run_of_derives {texts : List String} {rest : Choice.Source} {content : Bytes}
    (hderives : generateEach g.table (Options.ofSettings c).limit.limit? Choice.Source.ask fuel
      (some S) count.toNat (.ofSeed seed) = some (texts.map .ok, rest))
    (hcontent : Encoding.utf8.encode (String.join (texts.map SentenceFile.line)) = .ok content)
    (hwrite : tree.CanWrite (tree.path output) SentenceFile.asideNameLength) :
    ∃ u, run console fuel entropy program arguments tree =
        some (say console 0 (writtenLine count.toNat output) u) ∧
      tree.GainsFile u (tree.path output) content := by
  have hlength : texts.length = count.toNat := by
    rw [← length_of_generateEach hderives, List.length_map]
  have hgives := SentenceFile.gives_ofStream_of_generateEach hderives
  rw [← SentenceFile.isContent_utf8_iff] at hcontent
  obtain ⟨w, hw, hresult⟩ := SentenceFile.exists_write_of_canWrite hgives hcontent hwrite
    (Nat.lt_succ_of_le hlength.le)
  refine ⟨w.tree, ?_, ?_⟩
  · rw [run_of_uses hread huses, SentenceFile.writeStream, hw, Option.map_some]
    simp only [hresult, hlength]
  · obtain ⟨texts', _, content', hgives', -, hcodec, hcontent', hgains⟩ | ⟨⟨fault, hfault⟩, -⟩ :=
      SentenceFile.write_cases hw
    · cases hcodec
      obtain ⟨rfl, -, -⟩ := hgives.unique hgives'
      obtain rfl := Except.ok.inj (hcontent.symm.trans hcontent')
      exact hgains
    · rw [hresult] at hfault
      cases hfault

variable (hcount : count.toNat ≠ 0)
  (hhold : tree.CanHold (tree.path output) SentenceFile.asideNameLength)

include hcount hhold

variable (console program) in
/-- When a file can be written and the first derivation fails with a failure about the grammar, that
is printed. -/
theorem exists_run_of_fails {failure : Failure} {rest : Choice.Source}
    (hfails : generate g.table (Options.ofSettings c).limit.limit? Choice.Source.ask fuel (some S)
      (.ofSeed seed) = some (.error failure, rest))
    (hunder : (Options.ofSettings c).limit.faultUnder (.derivation failure) = .derivation failure)
    (habout : (Fault.derivation failure).isAboutGrammar = true)
    (hprints : Prints console (errorLine (.derivation failure))) :
    ∃ r, run console fuel entropy program arguments tree = some r ∧ r.status = .ok 1 ∧
      r.out = errorLine (.derivation failure) ∧
      tree.GainsDirectories r.tree (tree.path output) := by
  obtain ⟨w, hw, hresult⟩ := SentenceFile.exists_writeStream_of_fails hhold hcount hfails
  have hgains : tree.GainsDirectories w.tree (tree.path output) := by
    obtain ⟨_, _, _, -, hok, -⟩ | ⟨-, hgains⟩ := SentenceFile.write_cases hw
    · rw [hresult] at hok
      cases hok
    · exact hgains
  refine ⟨{ status := .ok 1, out := errorLine (.derivation failure), tree := w.tree }, ?_, rfl, rfl,
    hgains⟩
  rw [run_of_uses hread huses, hw, Option.map_some]
  simp only [hresult, hunder, faultResult_of_prints habout hprints]

theorem exists_generate_of_run (hrun : run console fuel entropy program arguments tree = some r) :
    ∃ result rest, generate g.table (Options.ofSettings c).limit.limit? Choice.Source.ask fuel
      (some S) (.ofSeed seed) = some (result, rest) := by
  rw [run_of_uses hread huses] at hrun
  obtain ⟨w, hw, -⟩ := Option.map_eq_some_iff.1 hrun
  exact SentenceFile.exists_generate_of_writeStream hhold hcount hw

end Uses

/-! ## Whole runs -/

theorem outcome_of_prepare (h : prepare entropy tree o = .error fault) (console : Codec)
    (fuel : Nat) : Outcome console fuel entropy tree o (faultResult console fault tree) := by
  obtain ⟨habout, hprints, hresult⟩ | ⟨other, habout, hresult⟩ :=
    faultResult_cases console fault tree
  · rw [hresult]
    obtain ⟨path, hfile, hload | ⟨g, seed, hload, -, hstart, rfl⟩⟩ :=
      (prepare_eq_error_iff habout).1 h
    · obtain ⟨reason?, rfl⟩ := exists_eq_unreadable hload
      exact .unread hfile hload hprints
    · exact .startless hfile hload hstart hprints
  · rw [hresult]
    exact .unprepared habout

/-- What the program is asked for comes to one of the outcomes. -/
theorem outcome_of_serve {r : Result} (h : serve console fuel entropy o tree = some r) :
    Outcome console fuel entropy tree o r := by
  unfold serve at h
  split at h
  · next fault hprepare =>
    cases h
    exact outcome_of_prepare hprepare console fuel
  · next job hprepare =>
    obtain ⟨w, hw, hresult⟩ := Option.map_eq_some_iff.1 h
    obtain ⟨g, S, seed, count, output, huses, rfl⟩ := prepare_eq_ok_iff.1 hprepare
    rw [fileCodec_eq] at hw
    dsimp only at hw
    obtain ⟨texts, content, hok, hall, hcontent, hgains⟩ |
      ⟨failure, texts, mid, hfault, hgains, hfewer, hbefore, hfails⟩ |
      ⟨fault, hfault, hgains, habout⟩ := SentenceFile.writeStream_cases hw
    · rw [hok] at hresult
      have hwrites : o.Writes fuel entropy tree g S seed count output texts w.tree :=
        ⟨huses, ⟨_, hall⟩, content, SentenceFile.isContent_utf8_iff.1 hcontent, hgains⟩
      obtain ⟨hprints, hsay⟩ | ⟨cause, hcause, hsay⟩ :=
        say_cases console 0 (writtenLine count.toNat output) w.tree
      · obtain rfl := hsay.symm.trans hresult
        exact .written hwrites hprints
      · obtain rfl := hsay.symm.trans hresult
        exact .unprinted hwrites hcause
    · rw [hfault] at hresult
      dsimp only at hresult
      obtain ⟨habout, hprints, hanswer⟩ | ⟨other, habout, hanswer⟩ :=
        faultResult_cases console (o.limit.faultUnder (.derivation failure)) w.tree
      · have hsame := Setting.faultUnder_of_isAboutGrammar habout
        rw [hsame] at habout hprints hanswer hresult
        obtain rfl := hanswer.symm.trans hresult
        exact .failed huses hfewer hbefore hfails habout hprints hgains
      · obtain rfl := hanswer.symm.trans hresult
        exact .unwritten huses habout hgains
    · rw [hfault] at hresult
      have hunder := Setting.isAboutGrammar_faultUnder habout o.limit
      obtain ⟨hnever, -⟩ | ⟨other, hother, hanswer⟩ :=
        faultResult_cases console (o.limit.faultUnder fault) w.tree
      · rw [hunder] at hnever
        cases hnever
      · obtain rfl := hanswer.symm.trans hresult
        exact .unwritten huses hother hgains

/-- With exit code 0 all sentences are written, and that is what is printed. -/
theorem Outcome.exists_writes {r : Result} (h : Outcome console fuel entropy tree o r)
    (hstatus : r.status = .ok 0) :
    ∃ g S seed count output texts,
      o.Writes fuel entropy tree g S seed count output texts r.tree ∧
        r.out = writtenLine count.toNat output := by
  cases h with
  | written writes => exact ⟨_, _, _, _, _, _, writes, rfl⟩
  | _ => cases hstatus

/-! ## Lines printed -/

theorem lineFeeds_writtenLine (count : Nat) (output : String) :
    SentenceFile.lineFeeds (writtenLine count output) = SentenceFile.lineFeeds output + 1 := by
  have hdigits : SentenceFile.lineFeeds (toString count) = 0 := by
    rw [SentenceFile.lineFeeds_eq_zero_iff, Nat.toString_eq_repr, Nat.toList_repr]
    intro hmem
    exact absurd (Nat.isDigit_of_mem_toDigits (by decide) (by decide) hmem) (by decide)
  have hwords : SentenceFile.lineFeeds " sentences written to " = 0 := by decide
  have hend : SentenceFile.lineFeeds "\n" = 1 := by decide
  simp only [writtenLine, SentenceFile.lineFeeds_append, hdigits, hwords, hend]
  omega

/-- What is printed about a file that was written is one line, unless the path of the file holds a
line feed. -/
theorem Outcome.lineFeeds_out {r : Result} {output : String}
    (h : Outcome console fuel entropy tree o r) (hstatus : r.status = .ok 0)
    (houtput : o.output.get defaultOutput .output = .ok output) :
    SentenceFile.lineFeeds r.out = 1 ↔ '\n' ∉ output.toList := by
  obtain ⟨g, S, seed, count, output', texts, writes, hout⟩ := h.exists_writes hstatus
  obtain rfl := Except.ok.inj (writes.uses.output.symm.trans houtput)
  rw [← SentenceFile.lineFeeds_eq_zero_iff, hout, lineFeeds_writtenLine]
  omega

/-- Whatever a run of the program comes to, once its arguments are read, is one of the outcomes: the
file of the output holds all the sentences that were asked for, or all files are as they were.  A
fault in the grammar is printed, and every other fault is left to the caller, as is one of the
console, which may have no bytes for what is to be printed.  With exit code 0 one line is printed,
unless the path of the output holds a line feed. -/
theorem run_outcome (console : Codec) (fuel entropy : Nat) (program : String)
    (arguments : List String) (tree : FileTree) (c : Settings) (r : Result)
    (hread : interface.read arguments = .ok c)
    (hrun : run console fuel entropy program arguments tree = some r) :
    Outcome console fuel entropy tree (.ofSettings c) r ∧
      (r.status = .ok 0 → ∀ output,
        (Options.ofSettings c).output.get defaultOutput .output = .ok output →
          (SentenceFile.lineFeeds r.out = 1 ↔ '\n' ∉ output.toList)) := by
  rw [run_eq_serve hread] at hrun
  have houtcome := outcome_of_serve hrun
  exact ⟨houtcome, fun hstatus output houtput => houtcome.lineFeeds_out hstatus houtput⟩

/-! ## Runs -/

def fileSwitch : Switch where
  names := ["--grammar"]
  takes := .word
  help := "grammar file path"
  required := true

def outputSwitch : Switch where
  names := ["--output"]
  takes := .word
  help := "where to write the sentences"

/-- A request for so many sentences of a grammar file. -/
def request (count grammar output : String) : List String :=
  ["--grammar", grammar, "--output", output, "--n_sentences", count, "--seed", "1"]

def requestSettings (count : Int) (grammar output : String) : Settings where
  given := [("--seed", .integer 1), ("--n_sentences", .integer count), ("--output", .word output),
    ("--grammar", .word grammar)]

/-- A request is read, whatever its paths are, if they do not begin with a dash. -/
theorem read_request {text grammar output : String} {count : Int}
    (hcount : ∀ c : Settings, c.take (integerSwitch "--n_sentences") text =
      .ok (c.give (integerSwitch "--n_sentences") (.integer count)))
    (htext : text.toList.head? ≠ some '-') (hgrammar : grammar.toList.head? ≠ some '-')
    (houtput : output.toList.head? ≠ some '-') :
    interface.read (request text grammar output) = .ok (requestSettings count grammar output) := by
  have hne {word : String} (h : word.toList.head? ≠ some '-') : word ≠ "--" := by
    rintro rfl
    exact h rfl
  have hclassify : interface.classifyAll (request text grammar output) = .ok [
      .switch fileSwitch "--grammar" none, .plain grammar,
      .switch outputSwitch "--output" none, .plain output,
      .switch (integerSwitch "--n_sentences") "--n_sentences" none, .plain text,
      .switch (integerSwitch "--seed") "--seed" none, .plain "1"] :=
    Interface.classifyAll_cons (by decide) rfl <|
    Interface.classifyAll_cons (hne hgrammar) (Interface.classify_plain hgrammar) <|
    Interface.classifyAll_cons (by decide) rfl <|
    Interface.classifyAll_cons (hne houtput) (Interface.classify_plain houtput) <|
    Interface.classifyAll_cons (by decide) rfl <|
    Interface.classifyAll_cons (hne htext) (Interface.classify_plain htext) rfl
  refine Interface.read_eq_ok hclassify ?_ rfl
  apply Interface.takeAll_value (by decide) (Settings.take_word rfl hgrammar _)
  apply Interface.takeAll_value (by decide) (Settings.take_word rfl houtput _)
  apply Interface.takeAll_value (by decide) (hcount _)
  apply Interface.takeAll_value (by decide) rfl
  exact Interface.takeAll_nil _ _

theorem prints_utf8 (text : String) : Prints Encoding.utf8.codec text :=
  ⟨_, Encoding.codec_append_eq_ok_iff.2
    ⟨_, Encoding.encode_eq_ok_iff.2 ⟨fun _ _ => rfl, rfl⟩, rfl⟩⟩

def twoBodiesSource : Bytes :=
  [0x7B, 0x20, 0x3C, 0x53, 0x3E, 0x20, 0x61, 0x20, 0x3B, 0x20, 0x62, 0x20, 0x3B, 0x20, 0x7D]

/-- The grammar of `twoBodiesSource`. -/
def twoBodies : Grammar := ⟨.ofList [(⟨"<S>"⟩, [[⟨"a"⟩], [⟨"b"⟩]])], some ⟨"<S>"⟩⟩

def gapBehindASource : Bytes :=
  [0x7B, 0x20, 0x3C, 0x53, 0x3E, 0x20, 0x61, 0x20, 0x3C, 0x58, 0x3E, 0x20, 0x3B, 0x20, 0x7D]

/-- The grammar of `gapBehindASource`, in which a symbol has no entry. -/
def gapBehindA : Grammar := ⟨.ofList [(⟨"<S>"⟩, [[⟨"a"⟩, ⟨"<X>"⟩]])], some ⟨"<S>"⟩⟩

/-- Two grammars, and an output that is there already. -/
def choosing : FileTree := .ofPaths (.ofNames ["w"])
  [("g", .file twoBodiesSource), ("h", .file gapBehindASource), ("d/out", .file [0x0A])]

theorem load_twoBodies : loadGrammar choosing "g" fileCodec = .ok twoBodies := by
  rw [loadGrammar_eq_ok rfl (Encoding.decode_utf8_of_lt rfl)]
  rfl

theorem load_gapBehindA : loadGrammar choosing "h" fileCodec = .ok gapBehindA := by
  rw [loadGrammar_eq_ok rfl (Encoding.decode_utf8_of_lt rfl)]
  rfl

theorem uses_twoBodies (entropy : Nat) (count : Int) (output : String)
    (hcount : count ≤ SentenceStream.maxDisplayed) :
    (Options.ofSettings (requestSettings count "g" output)).Uses entropy choosing twoBodies
      ⟨"<S>"⟩ 1 count output :=
  ⟨⟨"g", rfl, load_twoBodies⟩, rfl, rfl, fun _ => hcount, rfl, rfl⟩

theorem uses_gapBehindA (entropy : Nat) : (Options.ofSettings (requestSettings 2 "h" "d/out")).Uses entropy choosing
    gapBehindA ⟨"<S>"⟩ 1 2 "d/out" :=
  ⟨⟨"h", rfl, load_gapBehindA⟩, rfl, rfl, fun _ => by decide, rfl, rfl⟩

/-- Either of the two bodies may be chosen. -/
theorem generate_twoBodies {source : Choice.Source} (hseeded : source.IsSeeded) :
    ∃ text ∈ ["a ", "b "], ∃ rest, rest.IsSeeded ∧
      generate twoBodies.table none Choice.Source.ask 9 (some ⟨"<S>"⟩) source =
        some (.ok text, rest) := by
  obtain ⟨hnonneg, hlt, hrest⟩ := Choice.Source.keepsRange_isSeeded source hseeded 2 (by decide)
  have hfind : twoBodies.table.bodies? ⟨"<S>"⟩ = some [[⟨"a"⟩], [⟨"b"⟩]] := rfl
  obtain hi | hi : (source.ask 2).1 = 0 ∨ (source.ask 2).1 = 1 := by omega
  · have hbody : bodyAt? [[⟨"a"⟩], [⟨"b"⟩]] (source.ask 2).1 = some [⟨"a"⟩] := by
      rw [hi]
      rfl
    exact ⟨"a ", by simp, _, hrest, generate_of_bodyAt? rfl hfind hbody 8⟩
  · have hbody : bodyAt? [[⟨"a"⟩], [⟨"b"⟩]] (source.ask 2).1 = some [⟨"b"⟩] := by
      rw [hi]
      rfl
    exact ⟨"b ", by simp, _, hrest, generate_of_bodyAt? rfl hfind hbody 8⟩

theorem generate_gapBehindA {source : Choice.Source} (hseeded : source.IsSeeded) :
    ∃ rest, generate gapBehindA.table none Choice.Source.ask 9 (some ⟨"<S>"⟩) source =
      some (.error (.undefined ⟨"<X>"⟩), rest) := by
  obtain ⟨hnonneg, hlt, -⟩ := Choice.Source.keepsRange_isSeeded source hseeded 1 (by decide)
  have hbody : bodyAt? [[⟨"a"⟩, ⟨"<X>"⟩]] (source.ask 1).1 = some [⟨"a"⟩, ⟨"<X>"⟩] := by
    obtain hi : (source.ask 1).1 = 0 := by omega
    rw [hi]
    rfl
  exact ⟨_, generate_of_bodyAt? rfl rfl hbody 8⟩

theorem isTarget_choosing :
    choosing.IsTarget (choosing.path "d/out") SentenceFile.asideNameLength := by
  have hway : choosing.IsWay (choosing.path "d/out").start ["d"] :=
    FileTree.isWay_cons.2 ⟨by rfl, FileTree.isWay_nil.2 (by rfl)⟩
  exact ⟨["d"], "out", ⟨by rfl, ⟨0, by rfl⟩, hway, by decide, by decide, by decide⟩, by rfl,
    by decide +kernel, by decide +kernel, by rfl⟩

theorem read_choosing {grammar : String} (hgrammar : grammar.toList.head? ≠ some '-') :
    interface.read (request "2" grammar "d/out") = .ok (requestSettings 2 grammar "d/out") :=
  read_request (fun _ => rfl) (by decide) hgrammar (by decide)

/-- Each sentence has a choice of its own. -/
theorem exists_run_twoBodies : ∃ first ∈ ["a ", "b "], ∃ second ∈ ["a ", "b "], ∃ rest r,
    generateEach twoBodies.table none Choice.Source.ask 9 (some ⟨"<S>"⟩) 2 (.ofSeed 1) =
        some ([first, second].map .ok, rest) ∧
      run Encoding.utf8.codec 9 0 "write" (request "2" "g" "d/out") choosing = some r ∧
      r.status = .ok 0 ∧ r.out = "2 sentences written to d/out\n" := by
  obtain ⟨first, hfirst, mid, hmid, hderives⟩ :=
    generate_twoBodies (Choice.Source.isSeeded_ofSeed 1)
  obtain ⟨second, hsecond, rest, -, hderives'⟩ := generate_twoBodies hmid
  have hall : generateEach twoBodies.table none Choice.Source.ask 9 (some ⟨"<S>"⟩) 2 (.ofSeed 1) =
      some ([first, second].map .ok, rest) :=
    generateEach_succ_iff.2 ⟨_, _, mid, hderives,
      generateEach_succ_iff.2 ⟨_, _, rest, hderives', rfl, rfl⟩, rfl⟩
  obtain ⟨u, hrun, -⟩ := exists_run_of_derives Encoding.utf8.codec "write"
    (read_choosing (by decide)) (uses_twoBodies 0 2 "d/out" (by decide)) hall
    (Encoding.encode_eq_ok_iff.2 ⟨fun _ _ => rfl, rfl⟩)
    (isTarget_choosing.canWrite fun _ => FileTree.start_path_of_names)
  rw [say_of_prints (prints_utf8 _)] at hrun
  exact ⟨first, hfirst, second, hsecond, rest, _, hall, hrun, rfl, rfl⟩

/-- With a choice for each line, the lines are those of some choices; and a derivation that fails
behind a choice is told of, and the output is as it was. -/
theorem outcome_choosing :
    (∃ r, interface.read (request "2" "g" "d/out") = .ok (requestSettings 2 "g" "d/out") ∧
      run Encoding.utf8.codec 9 0 "write" (request "2" "g" "d/out") choosing = some r ∧
      r.status = .ok 0 ∧ r.out = "2 sentences written to d/out\n" ∧
      SentenceFile.lineFeeds r.out = 1 ∧
      ∃ first ∈ ["a\n", "b\n"], ∃ second ∈ ["a\n", "b\n"], ∃ content,
        Encoding.utf8.encode (first ++ second) = .ok content ∧
        r.tree.content? (choosing.path "d/out") = some content) ∧
    ∃ r, interface.read (request "2" "h" "d/out") = .ok (requestSettings 2 "h" "d/out") ∧
      run Encoding.utf8.codec 9 0 "write" (request "2" "h" "d/out") choosing = some r ∧
      r.status = .ok 1 ∧ r.out = "ERROR: undefined non-terminal: <X>\n" ∧
      r.tree.at? (choosing.path "d/out").place = some (.file [0x0A]) := by
  constructor
  · have hread : interface.read (request "2" "g" "d/out") = .ok _ := read_choosing (by decide)
    obtain ⟨first, hfirst, second, hsecond, rest, r, hall, hrun, hstatus, hout⟩ :=
      exists_run_twoBodies
    obtain ⟨houtcome, hlines⟩ := run_outcome _ _ _ _ _ _ _ _ hread hrun
    refine ⟨r, hread, hrun, hstatus, hout, (hlines hstatus "d/out" rfl).2 (by decide), ?_⟩
    obtain ⟨g, S, seed, count, output, texts, writes, -⟩ := houtcome.exists_writes hstatus
    obtain ⟨rfl, rfl, rfl, rfl, rfl⟩ := (uses_twoBodies 0 2 "d/out" (by decide)).unique writes.uses
    obtain ⟨rest', hall'⟩ := writes.derived
    obtain ⟨htexts, -⟩ := Prod.mk.inj (Option.some.inj (hall.symm.trans hall'))
    obtain rfl := List.map_injective_iff.2 (fun _ _ => Except.ok.inj) htexts
    obtain ⟨content, hencode, hgains⟩ := writes.gains
    have hline : ∀ text ∈ ["a ", "b "], SentenceFile.line text ∈ ["a\n", "b\n"] := by decide
    exact ⟨_, hline first hfirst, _, hline second hsecond, content, hencode, hgains.found⟩
  · have hread : interface.read (request "2" "h" "d/out") = .ok _ := read_choosing (by decide)
    have hhold : choosing.CanHold (choosing.path "d/out") SentenceFile.asideNameLength :=
      ⟨choosing, choosing.home.child "d", rfl, rfl, rfl, rfl⟩
    obtain ⟨rest, hfails⟩ := generate_gapBehindA (Choice.Source.isSeeded_ofSeed 1)
    obtain ⟨r, hrun, hstatus, hout, -⟩ := exists_run_of_fails Encoding.utf8.codec "write" hread
      (uses_gapBehindA 0) (by decide) hhold hfails rfl rfl (prints_utf8 _)
    obtain ⟨houtcome, -⟩ := run_outcome _ _ _ _ _ _ _ _ hread hrun
    refine ⟨r, hread, hrun, hstatus, hout, ?_⟩
    cases houtcome with
    | failed uses fewer derived fails about prints gains =>
        obtain ⟨rfl, rfl, rfl, rfl, rfl⟩ := (uses_gapBehindA 0).unique uses
        obtain hsame | ⟨hnone, -⟩ := gains.places (choosing.path "d/out").place
        · exact hsame
        · cases hnone
    | unread => rfl
    | startless => rfl
    | _ => cases hstatus

/-- Without a sentence to derive, a file is written where paths start, and nothing is left but to
print that. -/
theorem exists_run_choosing {output : String} (houtput : output.toList.head? ≠ some '-')
    (hpath : choosing.path output = ⟨choosing.home, [output]⟩)
    (hnew : choosing.IsNewPlace ⟨choosing.home, [output]⟩ [] output)
    (hvacant : choosing.at? (FileTree.Path.place ⟨choosing.home, [output]⟩) ≠ some .directory)
    (console : Codec) :
    ∃ u, run console 1 0 "write" (request "0" "g" output) choosing =
        some (say console 0 (writtenLine 0 output) u) ∧
      u.content? (choosing.path output) = some [] := by
  have hread : interface.read (request "0" "g" output) = .ok (requestSettings 0 "g" output) :=
    read_request (fun _ => rfl) (by decide) (by decide) houtput
  have huses := uses_twoBodies 0 0 output (by decide)
  have hall : generateEach twoBodies.table none Choice.Source.ask 1 (some ⟨"<S>"⟩) 0 (.ofSeed 1) =
      some (([] : List String).map .ok, .ofSeed 1) := rfl
  have htarget : choosing.IsTarget (choosing.path output) SentenceFile.asideNameLength := by
    rw [hpath]
    exact ⟨[], output, hnew, rfl, hvacant, rfl, rfl⟩
  obtain ⟨u, hrun, hgains⟩ := exists_run_of_derives console "write" hread huses hall
    (Encoding.encode_empty .utf8) (htarget.canWrite fun _ => FileTree.start_path_of_names)
  exact ⟨u, hrun, hgains.found⟩

/-- A line feed in the path of the output is printed as it is, and so there are two lines; and if
the console has no bytes for the path, the file is there when that comes out. -/
theorem run_oddOutputs :
    (∃ r, run Encoding.utf8.codec 1 0 "write" (request "0" "g" "a\nb") choosing = some r ∧
      r.status = .ok 0 ∧ SentenceFile.lineFeeds r.out = 2) ∧
    ∃ r fault, run Encoding.ascii.codec 1 0 "write" (request "0" "g" "é") choosing = some r ∧
      r.status = .error fault ∧ choosing.content? (choosing.path "é") = none ∧
      r.tree.content? (choosing.path "é") = some [] := by
  have hway : choosing.IsWay choosing.home [] := FileTree.isWay_nil.2 rfl
  constructor
  · have hnew : choosing.IsNewPlace ⟨choosing.home, ["a\nb"]⟩ [] "a\nb" :=
      ⟨rfl, ⟨0, rfl⟩, hway, by simp, by decide, by decide⟩
    obtain ⟨u, hrun, -⟩ :=
      exists_run_choosing (by decide) rfl hnew (by decide +kernel) Encoding.utf8.codec
    rw [say_of_prints (prints_utf8 _)] at hrun
    exact ⟨_, hrun, rfl, (lineFeeds_writtenLine 0 "a\nb").trans (by decide)⟩
  · have hnew : choosing.IsNewPlace ⟨choosing.home, ["é"]⟩ [] "é" :=
      ⟨rfl, ⟨0, rfl⟩, hway, by simp, by decide, by decide⟩
    obtain ⟨u, hrun, hcontent⟩ :=
      exists_run_choosing (by decide) rfl hnew (by decide +kernel) Encoding.ascii.codec
    exact ⟨_, _, hrun, rfl, rfl, hcontent⟩

end WriteSentences

end CommandLine

end BraceGrammar
