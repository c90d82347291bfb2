import BraceGrammar.Proofs.Codec
import BraceGrammar.Proofs.Target
import BraceGrammar.SentenceFile

/-!
# Writing all or nothing

`Gives` says which sentences a supply gives and how it ends.  A draft holds the lines of sentences
as long as each of them can be encoded (`Draft.Holds.add`), so a draft that comes to its end holds
all that the supply gave (`exists_gives_of_draft`).

Writing then does one of two things (`write_cases`): it fails, and the tree has only gained
directories on the way to the target, or it has put a draft that came to its end where the target
is.  The file that is written aside is gone in both cases.
-/

namespace BraceGrammar

/-! ## Finding a codec -/

theorem findCodec_of_ofName? {name : String} {e : Encoding} (hzero : '\x00' ∉ name.toList)
    (hname : Encoding.ofName? name = some e) : findCodec name = .ok e.codec := by
  simp [findCodec, hzero, hname]

namespace SentenceFile

variable {τ : Type} {ask : τ → Option (Supplied τ)} {supply rest : τ} {c : Codec}

/-! ## What a supply gives -/

/-- A supply gives some sentences, in order, and then ends or has a fault. -/
inductive Gives (ask : τ → Option (Supplied τ)) : τ → List String → Option Fault → τ → Prop
  | ended {supply rest : τ} (last : ask supply = some (.over rest)) : Gives ask supply [] none rest
  | fault {supply rest : τ} {cause : Fault} (last : ask supply = some (.fault cause rest)) :
      Gives ask supply [] (some cause) rest
  | sentence {supply next rest : τ} {text : String} {sentences : List String}
      {fault? : Option Fault} (first : ask supply = some (.sentence text next))
      (others : Gives ask next sentences fault? rest) :
      Gives ask supply (text :: sentences) fault? rest

/-- A supply gives one list of sentences only, and ends in one way. -/
theorem Gives.unique {sentences sentences' : List String} {fault? fault?' : Option Fault}
    {rest' : τ} (h : Gives ask supply sentences fault? rest)
    (h' : Gives ask supply sentences' fault?' rest') :
    sentences = sentences' ∧ fault? = fault?' ∧ rest = rest' := by
  induction h generalizing sentences' with
  | ended last =>
      cases h' with
      | ended last' =>
          rw [last, Option.some.injEq, Supplied.over.injEq] at last'
          exact ⟨rfl, rfl, last'⟩
      | fault last' => simp [last] at last'
      | sentence first' => simp [last] at first'
  | fault last =>
      cases h' with
      | ended last' => simp [last] at last'
      | fault last' =>
          rw [last, Option.some.injEq, Supplied.fault.injEq] at last'
          obtain ⟨rfl, rfl⟩ := last'
          exact ⟨rfl, rfl, rfl⟩
      | sentence first' => simp [last] at first'
  | sentence first _ ih =>
      cases h' with
      | ended last' => simp [first] at last'
      | fault last' => simp [first] at last'
      | sentence first' others' =>
          rw [first, Option.some.injEq, Supplied.sentence.injEq] at first'
          obtain ⟨rfl, rfl⟩ := first'
          obtain ⟨rfl, rfl, rfl⟩ := ih others'
          exact ⟨rfl, rfl, rfl⟩

/-! ## Drafts -/

/-- The content of a file of sentences: the bytes that their lines add to it, one after the
other. -/
def IsContent (c : Codec) (sentences : List String) (content : Bytes) : Prop :=
  c.appendAll [] (sentences.map line) = .ok content

/-- A draft of sentences. -/
structure Draft.Holds (d : Draft) (c : Codec) (sentences : List String) : Prop where
  lines : d.lines = (sentences.map line).reverse
  content : IsContent c sentences d.content

theorem Draft.holds_nil (c : Codec) : Draft.Holds {} c [] := ⟨rfl, rfl⟩

theorem Draft.add_eq_ok_iff {d d' : Draft} {text : String} : d.add c text = .ok d' ↔
    ∃ bytes, c.append d.lines (line text) = .ok bytes ∧
      ⟨line text :: d.lines, bytes.reverse ++ d.reversed⟩ = d' :=
  map_eq_ok_iff

theorem Draft.Holds.add {d d' : Draft} {sentences : List String} {text : String}
    (h : d.Holds c sentences) (hadd : d.add c text = .ok d') :
    d'.Holds c (sentences ++ [text]) := by
  obtain ⟨hlines, hcontent⟩ := h
  obtain ⟨bytes, hbytes, rfl⟩ := Draft.add_eq_ok_iff.1 hadd
  rw [hlines, ← List.append_nil (List.reverse _)] at hbytes
  constructor
  · rw [hlines, List.map_append, List.reverse_append]
    rfl
  · unfold IsContent Draft.content at hcontent ⊢
    rw [List.map_append, List.reverse_append, List.reverse_reverse]
    exact Codec.appendAll_concat hcontent hbytes

theorem Draft.Holds.length_eq {d : Draft} {sentences : List String} (h : d.Holds c sentences) :
    d.lines.length = sentences.length := by
  rw [h.lines, List.length_reverse, List.length_map]

/-- A draft that comes to its end holds all that the supply gave. -/
theorem exists_gives_of_draft {bound : Nat} {d d' : Draft} {before : List String}
    (h : d.Holds c before) (hdraft : draft ask c bound d supply = some (.ok d', rest)) :
    ∃ sentences, Gives ask supply sentences none rest ∧ d'.Holds c (before ++ sentences) := by
  induction bound generalizing d supply before with
  | zero => cases hdraft
  | succ bound ih =>
      rw [draft] at hdraft
      split at hdraft
      · cases hdraft
      · next last =>
        cases hdraft
        refine ⟨[], .ended last, ?_⟩
        rwa [List.append_nil]
      · cases hdraft
      · next text next first =>
        split at hdraft
        · cases hdraft
        · next d'' hadd =>
          obtain ⟨sentences, hgives, hholds⟩ := ih (h.add hadd) hdraft
          refine ⟨text :: sentences, .sentence first hgives, ?_⟩
          rwa [List.append_assoc, List.singleton_append] at hholds

/-- A draft fails at a line that cannot be encoded, or where the supply does. -/
theorem gives_of_draft_eq_error {bound : Nat} {d : Draft} {fault : Fault}
    (hdraft : draft ask c bound d supply = some (.error fault, rest)) :
    (∃ cause, fault = .unencodable cause) ∨
      ∃ sentences, Gives ask supply sentences (some fault) rest := by
  induction bound generalizing d supply with
  | zero => cases hdraft
  | succ bound ih =>
      rw [draft] at hdraft
      split at hdraft
      · cases hdraft
      · cases hdraft
      · next last =>
        cases hdraft
        exact .inr ⟨[], .fault last⟩
      · next text next first =>
        split at hdraft
        · cases hdraft
          exact .inl ⟨_, rfl⟩
        · obtain hcause | ⟨sentences, hgives⟩ := ih hdraft
          · exact .inl hcause
          · exact .inr ⟨text :: sentences, .sentence first hgives⟩

/-- Drafting comes to its end when the supply does. -/
theorem isSome_draft {sentences : List String} {fault? : Option Fault}
    (h : Gives ask supply sentences fault? rest) {bound : Nat} (hbound : sentences.length < bound)
    (d : Draft) : (draft ask c bound d supply).isSome = true := by
  induction h generalizing bound d with
  | ended last =>
      obtain _ | bound := bound
      · omega
      · simp [draft, last]
  | fault last =>
      obtain _ | bound := bound
      · omega
      · simp [draft, last]
  | sentence first _ ih =>
      obtain _ | bound := bound
      · omega
      · rw [List.length_cons] at hbound
        simp only [draft, first]
        split
        · rfl
        · next d' _ => exact ih (by omega) d'

/-- When a codec has bytes for all lines, a draft of all that the supply gives is made. -/
theorem exists_draft_eq_ok {sentences : List String} {fault? : Option Fault}
    (h : Gives ask supply sentences fault? rest) (hover : fault? = none) {d : Draft}
    {content : Bytes} (hcontent : c.appendAll d.lines (sentences.map line) = .ok content)
    {bound : Nat} (hbound : sentences.length < bound) :
    ∃ d', draft ask c bound d supply = some (.ok d', rest) ∧
      d'.lines.length = d.lines.length + sentences.length := by
  induction h generalizing bound d content with
  | ended last =>
      obtain _ | bound := bound
      · omega
      · exact ⟨d, by simp [draft, last], rfl⟩
  | fault => cases hover
  | @sentence supply next rest text sentences fault? first _ ih =>
      obtain _ | bound := bound
      · omega
      · rw [List.length_cons] at hbound
        rw [List.map_cons] at hcontent
        obtain ⟨bytes, _, hline, hothers, -⟩ := Codec.appendAll_cons_eq_ok_iff.1 hcontent
        have hadd := Draft.add_eq_ok_iff.2 ⟨bytes, hline, rfl⟩
        have hfewer : sentences.length < bound := by omega
        obtain ⟨d', hdraft, hcount⟩ :=
          ih hover (d := ⟨line text :: d.lines, bytes.reverse ++ d.reversed⟩) hothers hfewer
        refine ⟨d', ?_, ?_⟩
        · simp only [draft, first, hadd, hdraft]
        · rw [hcount, List.length_cons, List.length_cons]
          omega

/-! ## Writing -/

section Write

variable {bound : Nat} {t : FileTree} {path : String} {codec : Except Fault Codec}

/-- Writing fails, with nothing gained but directories, because of the path, for want of a codec or
because of the draft; or it ends with a draft where a file can be written, and still can. -/
theorem write_ends {w : Written τ} (h : write ask bound t path codec supply = some w) :
    (∃ fault, w.result = .error fault ∧ t.GainsDirectories w.tree (t.path path) ∧
      ((∃ cause, fault = .path cause) ∨ codec = .error fault ∨
        ∃ c, codec = .ok c ∧ draft ask c bound {} supply = some (.error fault, w.rest))) ∨
      ∃ c d, codec = .ok c ∧
        draft ask c bound {} supply = some (.ok d, w.rest) ∧ w.result = .ok d.lines.length ∧
        t.GainsFile w.tree (t.path path) d.content ∧ t.CanWrite (t.path path) asideNameLength ∧
        w.tree.IsTarget (t.path path) asideNameLength := by
  have hgains := t.gainsDirectories_parent (t.path path)
  unfold write at h
  dsimp only at h
  split at h
  · next u fault hparent =>
    rw [hparent] at hgains
    obtain rfl := Option.some.inj h
    exact .inl ⟨_, rfl, hgains, .inl ⟨_, rfl⟩⟩
  · next u hparent =>
    rw [hparent] at hgains
    split at h
    · next fault _ =>
      obtain rfl := Option.some.inj h
      exact .inl ⟨_, rfl, hgains, .inl ⟨_, rfl⟩⟩
    · next directory hwalk =>
      have haside := u.at?_child_unusedName directory
      split at h
      · obtain rfl := Option.some.inj h
        exact .inl ⟨_, rfl, hgains, .inl ⟨_, rfl⟩⟩
      · next hroom =>
        split at h
        · obtain rfl := Option.some.inj h
          exact .inl ⟨_, rfl, hgains, .inl ⟨_, rfl⟩⟩
        · obtain rfl := Option.some.inj h
          exact .inl ⟨_, rfl, hgains, .inr (.inl rfl)⟩
        · next c hopen =>
          obtain ⟨⟨outcome, rest⟩, hdraft, hw⟩ := Option.map_eq_some_iff.1 h
          cases outcome with
          | error fault =>
              obtain rfl := hw
              refine .inl ⟨_, rfl, ?_, .inr (.inr ⟨c, rfl, hdraft⟩)⟩
              dsimp only
              rwa [FileTree.remove_put haside]
          | ok d =>
              dsimp only at hw
              split at hw
              · obtain rfl := hw
                refine .inl ⟨_, rfl, ?_, .inl ⟨_, rfl⟩⟩
                dsimp only
                rwa [FileTree.remove_put haside]
              · next v hrename =>
                obtain rfl := hw
                have hfile := FileTree.gainsFile_of_rename haside hrename
                obtain ⟨hbefore, hafter⟩ := FileTree.isTarget_of_rename haside hrename
                  (fun _ => hgains.start_path_of_names) hwalk (by simpa using hroom) hopen
                exact .inr ⟨c, d, rfl, hdraft, rfl, hgains.trans_gainsFile hfile,
                  ⟨u, hparent, hbefore⟩, hafter⟩

/-- Writing fails with nothing gained but directories, or it ends with the content of all sentences
at its target. -/
theorem write_cases {w : Written τ} (h : write ask bound t path codec supply = some w) :
    (∃ sentences c content, Gives ask supply sentences none w.rest ∧
        w.result = .ok sentences.length ∧ codec = .ok c ∧ IsContent c sentences content ∧
        t.GainsFile w.tree (t.path path) content) ∨
      ((∃ fault, w.result = .error fault) ∧ t.GainsDirectories w.tree (t.path path)) := by
  obtain ⟨fault, hfault, hgains, -⟩ | ⟨c, d, hcodec, hdraft, hresult, hfile, -⟩ := write_ends h
  · exact .inr ⟨⟨fault, hfault⟩, hgains⟩
  · obtain ⟨sentences, hgives, hholds⟩ := exists_gives_of_draft (Draft.holds_nil c) hdraft
    rw [List.nil_append] at hholds
    rw [hholds.length_eq] at hresult
    exact .inl ⟨sentences, c, d.content, hgives, hresult, hcodec, hholds.content, hfile⟩

/-- Writing comes to its end when the supply does. -/
theorem exists_write {sentences : List String} {fault? : Option Fault}
    (h : Gives ask supply sentences fault? rest) (hbound : sentences.length < bound)
    (t : FileTree) (path : String) (codec : Except Fault Codec) :
    ∃ w, write ask bound t path codec supply = some w := by
  rw [← Option.isSome_iff_exists]
  unfold write
  dsimp only
  split
  · rfl
  · split
    · rfl
    · split
      · rfl
      · split
        · rfl
        · rfl
        · rw [Option.isSome_map]
          exact isSome_draft h hbound {}

/-- Writing succeeds where a file can be written, when the codec has bytes for all lines. -/
theorem exists_write_of_canWrite {sentences : List String} {content : Bytes}
    (hgives : Gives ask supply sentences none rest) (hcontent : IsContent c sentences content)
    (hwrite : t.CanWrite (t.path path) asideNameLength) (hbound : sentences.length < bound) :
    ∃ w, write ask bound t path (.ok c) supply = some w ∧ w.result = .ok sentences.length := by
  obtain ⟨u, hmake, before, last, hnew, hnames, hvacant, hroom, hopen⟩ := hwrite
  have hgains := t.gainsDirectories_parent (t.path path)
  rw [hmake] at hgains
  have hwalk := (hnew.parent_eq hnames fun _ => hgains.start_path_of_names).2
  obtain ⟨d, hdraft, hcount⟩ := exists_draft_eq_ok hgives rfl (d := {}) hcontent hbound
  have haside := u.at?_child_unusedName ((t.path path).start.along before)
  obtain ⟨v, hrename⟩ := hnew.rename_eq hnames haside hvacant d.content
  refine ⟨⟨.ok d.lines.length, v, rest⟩, ?_, ?_⟩
  · simp [write, hmake, hwalk, hroom, hopen, hdraft, hrename]
  · rw [hcount]
    exact congrArg Except.ok (Nat.zero_add _)

end Write

/-! ## Contents -/

theorem getLast?_line (text : String) : (line text).toList.getLast? = some '\n' := by
  rw [line, String.toList_ofList, List.getLast?_concat]

/-- When lines are encoded one after the other as at once, a file of sentences has the bytes of
their concatenation. -/
theorem isContent_iff_encode (hline : c.IsLinewise) {sentences : List String} {content : Bytes}
    (hsome : sentences ≠ []) :
    IsContent c sentences content ↔
      c.encode (String.join (sentences.map line)) = .ok content := by
  refine hline _ (mt List.map_eq_nil_iff.1 hsome) (fun _ hmem => ?_) content
  obtain ⟨text, -, rfl⟩ := List.mem_map.1 hmem
  exact getLast?_line text

/-- Writing all sentences of a supply, however many they are and wherever it fails, ends when the
supply does, and in one of two ways.  It gives the number of sentences, and then the file at the end
of the path holds the bytes that the codec has for their lines one after the other, the directories
on the path are there, and all else is as it was; or it fails, and then all is as it was but for new
directories on the path.  It does not fail when the directory of the target is there and the codec
has bytes for all lines.  Without a sentence the file is empty, and else it has the bytes of the
lines at once if the codec does not tell these apart; an encoding never does. -/
theorem write_all_or_nothing {τ : Type} (ask : τ → Option (Supplied τ)) (t : FileTree)
    (path : String) (codec : Except Fault Codec) (supply : τ) :
    (∀ sentences fault? rest, Gives ask supply sentences fault? rest →
      ∀ bound, sentences.length < bound → ∃ w, write ask bound t path codec supply = some w) ∧
    (∀ bound w, write ask bound t path codec supply = some w →
      (∃ sentences c content, Gives ask supply sentences none w.rest ∧
          w.result = .ok sentences.length ∧ codec = .ok c ∧ IsContent c sentences content ∧
          (sentences = [] → content = []) ∧
          (sentences ≠ [] → c.IsLinewise →
            c.encode (String.join (sentences.map line)) = .ok content) ∧
          t.GainsFile w.tree (t.path path) content) ∨
        ((∃ fault, w.result = .error fault) ∧ t.GainsDirectories w.tree (t.path path))) ∧
    (∀ sentences rest c content, Gives ask supply sentences none rest → codec = .ok c →
      IsContent c sentences content → t.IsTarget (t.path path) asideNameLength →
      ∀ bound, sentences.length < bound →
        ∃ w, write ask bound t path codec supply = some w ∧ w.result = .ok sentences.length) ∧
    ∀ e : Encoding, e.codec.IsLinewise := by
  refine ⟨?_, ?_, ?_, Encoding.isLinewise_codec⟩
  · intro sentences fault? rest hgives bound hbound
    exact exists_write hgives hbound t path codec
  · intro bound w hw
    rcases write_cases hw with ⟨sentences, c, content, hgives, hresult, hcodec, hcontent, hfile⟩ |
      hfails
    · refine .inl ⟨sentences, c, content, hgives, hresult, hcodec, hcontent, ?_, ?_, hfile⟩
      · rintro rfl
        exact (Except.ok.inj hcontent).symm
      · intro hsome hline
        exact (isContent_iff_encode hline hsome).1 hcontent
    · exact .inr hfails
  · rintro sentences rest c content hgives rfl hcontent htarget bound hbound
    exact exists_write_of_canWrite hgives hcontent
      (htarget.canWrite fun _ hname => FileTree.start_path_of_names hname) hbound

/-- A file in a directory, which is in the directory where paths start. -/
def oneFile : FileTree := .ofPaths (.ofNames ["w"]) [("a/out", .file [1, 2, 3])]

theorem isTarget_oneFile : oneFile.IsTarget (oneFile.path "a/out") asideNameLength := by
  have hway : oneFile.IsWay (oneFile.path "a/out").start ["a"] :=
    FileTree.isWay_cons.2 ⟨by rfl, FileTree.isWay_nil.2 (by rfl)⟩
  exact ⟨["a"], "out", ⟨by rfl, ⟨0, by rfl⟩, hway, by decide, by decide, by decide⟩, by rfl,
    by decide +kernel, by decide +kernel, by rfl⟩

theorem findCodec_signed : findCodec "utf-8-sig" = .ok Encoding.utf8Signed.codec :=
  findCodec_of_ofName? (by decide) (by decide +kernel)

theorem findCodec_punycode : findCodec "punycode" = .ok Punycode.codec := by
  have hname : Encoding.ofName? "punycode" = none := by decide +kernel
  have hplain : Encoding.plainName "punycode" = Punycode.name := by decide +kernel
  simp [findCodec, hname, hplain]

/-- One file is replaced, with a byte order mark; another is not made, for want of a character. -/
theorem write_oneFile :
    (∃ w, write ofList 3 oneFile "a/out" (findCodec "utf-8-sig") ["x ", "é"] = some w ∧
      w.result = .ok 2 ∧ oneFile.GainsFile w.tree (oneFile.path "a/out")
        [0xEF, 0xBB, 0xBF, 0x78, 0x0A, 0xC3, 0xA9, 0x0A]) ∧
    ∃ w, write ofList 3 oneFile "b/out" (findCodec "ascii") ["x ", "é"] = some w ∧
      (∃ fault, w.result = .error fault) ∧
      oneFile.GainsDirectories w.tree (oneFile.path "b/out") := by
  have hgives : Gives ofList ["x ", "é"] ["x ", "é"] none [] :=
    .sentence rfl (.sentence rfl (.ended rfl))
  constructor
  · obtain ⟨-, hends, hsucceeds, hline⟩ :=
      write_all_or_nothing ofList oneFile "a/out" (findCodec "utf-8-sig") ["x ", "é"]
    obtain ⟨w, hw, hresult⟩ := hsucceeds _ _ _
      [0xEF, 0xBB, 0xBF, 0x78, 0x0A, 0xC3, 0xA9, 0x0A] hgives findCodec_signed (by rfl)
      isTarget_oneFile 3 (by decide)
    refine ⟨w, hw, hresult, ?_⟩
    rcases hends 3 w hw with ⟨sentences, c, content, hgives', -, hc, -, -, hencode, hfile⟩ |
      ⟨⟨fault, hfault⟩, -⟩
    · obtain ⟨rfl, -, -⟩ := hgives.unique hgives'
      obtain rfl := Except.ok.inj (findCodec_signed.symm.trans hc)
      obtain rfl : [0xEF, 0xBB, 0xBF, 0x78, 0x0A, 0xC3, 0xA9, 0x0A] = content :=
        Except.ok.inj (hencode (by simp) (hline .utf8Signed))
      exact hfile
    · rw [hresult] at hfault
      cases hfault
  · obtain ⟨hwrites, hends, -, hline⟩ :=
      write_all_or_nothing ofList oneFile "b/out" (findCodec "ascii") ["x ", "é"]
    have hascii : findCodec "ascii" = .ok Encoding.ascii.codec :=
      findCodec_of_ofName? (by decide) (by decide +kernel)
    obtain ⟨w, hw⟩ := hwrites _ _ _ hgives 3 (by decide)
    refine ⟨w, hw, ?_⟩
    rcases hends 3 w hw with ⟨sentences, c, content, hgives', -, hc, -, -, hencode, -⟩ | hfails
    · obtain ⟨rfl, -, -⟩ := hgives.unique hgives'
      obtain rfl := Except.ok.inj (hascii.symm.trans hc)
      cases hencode (by simp) (hline .ascii)
    · exact hfails

/-- In Punycode each line has a hyphen of its own, and the lines at once have one for all. -/
theorem write_punycode_ne : ∃ w,
    write ofList 3 oneFile "a/out" (findCodec "punycode") ["a", "b"] = some w ∧
      w.result = .ok 2 ∧
      w.tree.content? (oneFile.path "a/out") = some [0x61, 0x0A, 0x2D, 0x62, 0x0A, 0x2D] ∧
      Punycode.codec.encode (String.join (["a", "b"].map line)) =
        .ok [0x61, 0x0A, 0x62, 0x0A, 0x2D] := by
  have hgives : Gives ofList ["a", "b"] ["a", "b"] none [] :=
    .sentence rfl (.sentence rfl (.ended rfl))
  have hcontent : IsContent Punycode.codec ["a", "b"] [0x61, 0x0A, 0x2D, 0x62, 0x0A, 0x2D] := by
    rfl
  have hwrite := isTarget_oneFile.canWrite fun _ hname => FileTree.start_path_of_names hname
  obtain ⟨w, hw, hresult⟩ : ∃ w, write ofList 3 oneFile "a/out" (.ok Punycode.codec) ["a", "b"] =
      some w ∧ w.result = .ok 2 :=
    exists_write_of_canWrite hgives hcontent hwrite (by decide)
  rw [findCodec_punycode]
  refine ⟨w, hw, hresult, ?_, by rfl⟩
  rcases write_cases hw with ⟨sentences, c, content, hgives', -, hc, hcontent', hfile⟩ |
    ⟨⟨fault, hfault⟩, -⟩
  · obtain ⟨rfl, -, -⟩ := hgives.unique hgives'
    cases hc
    obtain rfl := Except.ok.inj (hcontent.symm.trans hcontent')
    exact hfile.found
  · rw [hresult] at hfault
    cases hfault

end SentenceFile

end BraceGrammar
