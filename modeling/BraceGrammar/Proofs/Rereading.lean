import BraceGrammar.Proofs.GrammarFile
import BraceGrammar.Proofs.Lines
import BraceGrammar.Proofs.Punycode

/-!
# Reading what was written

Sentences are written to a path just when a file can be written there and the codec has bytes for
all their lines (`exists_writeList_iff`), which for an encoding are those whose sentences have only
characters that it has (`exists_isContent_codec_iff`).  If lines have the same bytes one after the
other as at once, and decoding undoes encoding, then the content of the file is decoded to the lines
(`decode_of_isContent`).  When there are no line ends in the sentences, reading has none to unify,
and the text is cut into the sentences without the blanks at their ends.

These are their own lines (`line_stripped`).  Writing them again gives the bytes that are there, in
a tree that has all directories of the path already, and so nothing changes.
-/

namespace BraceGrammar

namespace Encoding

variable {e : Encoding} {text : String}

theorem exists_encode_iff :
    (∃ bytes, e.encode text = .ok bytes) ↔ ∀ c ∈ text.toList, e.has c = true := by
  constructor
  · rintro ⟨bytes, h⟩
    exact (encode_eq_ok_iff.1 h).1
  · intro h
    exact ⟨_, encode_eq_ok_iff.2 ⟨h, rfl⟩⟩

theorem exists_encode_join_iff {texts : List String} :
    (∃ bytes, e.encode (String.join texts) = .ok bytes) ↔
      ∀ text ∈ texts, ∃ bytes, e.encode text = .ok bytes := by
  simp only [exists_encode_iff, String.toList_join, List.mem_flatMap]
  exact ⟨fun h text htext c hc => h c ⟨text, htext, hc⟩,
    fun h c ⟨text, htext, hc⟩ => h text htext c hc⟩

theorem has_blank (e : Encoding) : e.has ' ' = true := by
  cases e <;> decide

theorem has_lineFeed (e : Encoding) : e.has '\n' = true := by
  cases e <;> decide

end Encoding

namespace SentenceFile

variable {t : FileTree} {path : String} {codec : Except Fault Codec} {c : Codec} {e : Encoding}
  {sentences : List String} {n : Nat}

/-! ## Lines of sentences -/

/-- A line is encoded when its sentence is: the blanks that are taken off are in every encoding, and
so is the line feed. -/
theorem exists_encode_line_iff {text : String} :
    (∃ bytes, e.encode (line text) = .ok bytes) ↔ ∃ bytes, e.encode text = .ok bytes := by
  obtain ⟨blanks, htext⟩ := exists_stripped_append text
  have hline : (line text).toList = (stripped text).toList ++ ['\n'] := by
    rw [line_eq, String.toList_append]
    rfl
  rw [Encoding.exists_encode_iff, Encoding.exists_encode_iff, hline, htext]
  simp only [List.forall_mem_append, List.forall_mem_singleton]
  refine and_congr_right fun _ => iff_of_true e.has_lineFeed fun c hc => ?_
  rw [List.eq_of_mem_replicate hc]
  exact e.has_blank

theorem stripped_stripped (text : String) : stripped (stripped text) = stripped text := by
  apply String.toList_inj.1
  rw [toList_stripped, toList_stripped, List.rdropWhile_idempotent]

theorem line_stripped (text : String) : line (stripped text) = line text := by
  rw [line_eq, line_eq, stripped_stripped]

theorem map_line_stripped (sentences : List String) :
    (sentences.map stripped).map line = sentences.map line := by
  rw [List.map_map]
  exact List.map_congr_left fun text _ => line_stripped text

/-- A character of the lines is one of the sentences or the line feed. -/
theorem notMem_lines {c : Char} (hc : c ≠ '\n') (h : ∀ text ∈ sentences, c ∉ text.toList) :
    c ∉ (String.join (sentences.map line)).toList := by
  rw [String.toList_join]
  intro hmem
  obtain ⟨_, hline, hmem⟩ := List.mem_flatMap.1 hmem
  obtain ⟨text, htext, rfl⟩ := List.mem_map.1 hline
  rw [line_eq, String.toList_append, List.mem_append] at hmem
  rcases hmem with hmem | hmem
  · exact notMem_stripped (h text htext) hmem
  · exact hc (List.mem_singleton.1 hmem)

/-! ## Contents of sentences -/

theorem IsContent.unique {content content' : Bytes} (h : IsContent c sentences content)
    (h' : IsContent c sentences content') : content = content' :=
  Except.ok.inj (h.symm.trans h')

/-- An encoding has bytes for the lines when it has bytes for each sentence. -/
theorem exists_isContent_codec_iff : (∃ content, IsContent e.codec sentences content) ↔
    ∀ text ∈ sentences, ∃ bytes, e.encode text = .ok bytes := by
  have hlines : (∃ content, IsContent e.codec sentences content) ↔
      ∃ own, e.encode (String.join (sentences.map line)) = .ok own := by
    simp only [IsContent, Encoding.codec_appendAll_eq_ok_iff]
    exact ⟨fun ⟨_, own, hown, _⟩ => ⟨own, hown⟩, fun ⟨own, hown⟩ => ⟨_, own, hown, rfl⟩⟩
  rw [hlines, Encoding.exists_encode_join_iff]
  simp only [List.forall_mem_map, exists_encode_line_iff]

/-- Sentences and their lines have the same content. -/
theorem isContent_map_stripped {content : Bytes} :
    IsContent c (sentences.map stripped) content ↔ IsContent c sentences content := by
  rw [IsContent, IsContent, map_line_stripped]

/-- The content is decoded to the lines. -/
theorem decode_of_isContent (hline : c.IsLinewise) (hundoes : c.Undoes) {content : Bytes}
    (h : IsContent c sentences content) :
    c.decode content = .ok (String.join (sentences.map line)) := by
  by_cases hnone : sentences = []
  · subst hnone
    obtain rfl := Except.ok.inj h
    exact hundoes.decode_nil
  · exact hundoes.decode_encode _ _ ((isContent_iff_encode hline hnone).1 h)

/-! ## Writing a list -/

theorem gives_ofList (sentences : List String) : Gives ofList sentences sentences none [] := by
  induction sentences with
  | nil => exact .ended rfl
  | cons text sentences ih => exact .sentence rfl ih

/-- What is there when a list has been written. -/
theorem writeList_eq_ok {w : Written (List String)}
    (h : writeList t path codec sentences = some w) (hresult : w.result = .ok n) :
    n = sentences.length ∧ t.CanWrite (t.path path) asideNameLength ∧
      w.tree.IsTarget (t.path path) asideNameLength ∧
      ∃ c content, codec = .ok c ∧ IsContent c sentences content ∧
        t.GainsFile w.tree (t.path path) content := by
  obtain ⟨fault, hfault, -⟩ | ⟨c, d, hcodec, hdraft, hlines, hfile, hcan, htarget⟩ := write_ends h
  · rw [hresult] at hfault
    cases hfault
  · obtain ⟨given, hgives, hholds⟩ := exists_gives_of_draft (Draft.holds_nil c) hdraft
    rw [List.nil_append] at hholds
    obtain ⟨rfl, -, -⟩ := (gives_ofList sentences).unique hgives
    rw [hresult, hholds.length_eq, Except.ok.injEq] at hlines
    exact ⟨hlines, hcan, htarget, c, d.content, hcodec, hholds.content, hfile⟩

/-- A list is written where a file can be, with a codec that has bytes for all its lines. -/
theorem exists_writeList_iff :
    (∃ w, writeList t path codec sentences = some w ∧ w.result = .ok n) ↔
      n = sentences.length ∧ t.CanWrite (t.path path) asideNameLength ∧
        ∃ c content, codec = .ok c ∧ IsContent c sentences content := by
  constructor
  · rintro ⟨w, hw, hresult⟩
    obtain ⟨hn, hcan, -, c, content, hcodec, hcontent, -⟩ := writeList_eq_ok hw hresult
    exact ⟨hn, hcan, c, content, hcodec, hcontent⟩
  · rintro ⟨rfl, hcan, c, content, rfl, hcontent⟩
    exact exists_write_of_canWrite (gives_ofList sentences) hcontent hcan (Nat.lt_succ_self _)

/-- Writing the lines of a list where it was written changes nothing. -/
theorem exists_rewrite {w : Written (List String)}
    (h : writeList t path codec sentences = some w) (hresult : w.result = .ok n) :
    ∃ w' content, writeList w.tree path codec (sentences.map stripped) = some w' ∧
      w'.result = .ok n ∧ w.tree.content? (t.path path) = some content ∧
      w'.tree.content? (t.path path) = some content ∧ ∀ q, w'.tree.at? q = w.tree.at? q := by
  obtain ⟨rfl, -, htarget, c, content, rfl, hcontent, hfile⟩ := writeList_eq_ok h hresult
  have hpath := FileTree.path_eq_of_home hfile.home path
  rw [← hpath] at htarget
  have hcan := htarget.canWrite fun _ => FileTree.start_path_of_names
  have hlength : sentences.length = (sentences.map stripped).length := by rw [List.length_map]
  obtain ⟨w', hw', hresult'⟩ := exists_writeList_iff.2
    ⟨hlength, hcan, c, content, rfl, isContent_map_stripped.2 hcontent⟩
  obtain ⟨-, -, -, c', content', hcodec', hcontent', hfile'⟩ := writeList_eq_ok hw' hresult'
  cases hcodec'
  obtain rfl := hcontent.unique (isContent_map_stripped.1 hcontent')
  refine ⟨w', content, hw', hresult', hfile.found, hpath ▸ hfile'.found, ?_⟩
  exact hfile'.at?_eq htarget (hpath.symm ▸ hfile.found)

/-- Reading gives the lines of what was written. -/
theorem readText_of_writeList (hline : c.IsLinewise) (hundoes : c.Undoes)
    {w : Written (List String)} (h : writeList t path (.ok c) sentences = some w)
    (hresult : w.result = .ok n) (hplain : ∀ text ∈ sentences, '\r' ∉ text.toList) :
    readText w.tree path (.ok c) = .ok (String.join (sentences.map line)) := by
  obtain ⟨-, -, -, c', content, hcodec, hcontent, hfile⟩ := writeList_eq_ok h hresult
  cases hcodec
  have hfound : w.tree.content? (w.tree.path path) = some content := by
    rw [FileTree.path_eq_of_home hfile.home]
    exact hfile.found
  rw [readText_of_decode hfound (decode_of_isContent hline hundoes hcontent),
    Text.unifyLineEnds_of_notMem (notMem_lines (by decide) hplain), String.ofList_toList]

/-- Sentences without line ends are written where a file can be, with a codec that has bytes for
their lines, and not otherwise; an encoding has bytes for the lines if it has the characters of the
sentences.  If lines have the same bytes one after the other as at once and decoding undoes
encoding, as in every encoding, the text that is read from the path then is cut at its line feeds
into the sentences without the blanks at their ends, as many as the number returned, and nothing.
Writing these lines gives the same number and changes no file. -/
theorem writeList_rereads (t : FileTree) (path : String) (codec : Except Fault Codec)
    (sentences : List String)
    (hplain : ∀ text ∈ sentences, '\n' ∉ text.toList ∧ '\r' ∉ text.toList) :
    (∀ n, (∃ w, writeList t path codec sentences = some w ∧ w.result = .ok n) ↔
      n = sentences.length ∧ t.CanWrite (t.path path) asideNameLength ∧
        ∃ c content, codec = .ok c ∧ IsContent c sentences content) ∧
    (∀ e : Encoding, e.codec.IsLinewise ∧ e.codec.Undoes ∧
      ((∃ content, IsContent e.codec sentences content) ↔
        ∀ text ∈ sentences, ∃ bytes, e.encode text = .ok bytes)) ∧
    ∀ w n, writeList t path codec sentences = some w → w.result = .ok n →
      (∀ c, codec = .ok c → c.IsLinewise → c.Undoes →
        ∃ text lines, readText w.tree path codec = .ok text ∧ cutLines text = lines ++ [""] ∧
          lines = sentences.map stripped ∧ n = lines.length) ∧
      ∃ w' content, writeList w.tree path codec (sentences.map stripped) = some w' ∧
        w'.result = .ok n ∧ w.tree.content? (t.path path) = some content ∧
        w'.tree.content? (t.path path) = some content ∧ ∀ q, w'.tree.at? q = w.tree.at? q := by
  refine ⟨fun n => exists_writeList_iff,
    fun e => ⟨e.isLinewise_codec, e.undoes_codec, exists_isContent_codec_iff⟩,
    fun w n hw hresult => ⟨?_, exists_rewrite hw hresult⟩⟩
  rintro c rfl hline hundoes
  have hread := readText_of_writeList hline hundoes hw hresult fun text htext =>
    (hplain text htext).2
  obtain ⟨rfl, -⟩ := writeList_eq_ok hw hresult
  exact ⟨_, _, hread, cutLines_lines fun text htext => (hplain text htext).1, rfl,
    (List.length_map _).symm⟩

/-- A sentence with a blank at its end, one without any character, and one of blanks only. -/
theorem writeList_rereads_oneFile :
    (∀ text ∈ ["é ", "", "  "], '\n' ∉ text.toList ∧ '\r' ∉ text.toList) ∧
      ∃ w text, writeList oneFile "a/out" (findCodec "utf-8-sig") ["é ", "", "  "] = some w ∧
        w.result = .ok 3 ∧ readText w.tree "a/out" (findCodec "utf-8-sig") = .ok text ∧
        cutLines text = ["é", "", "", ""] ∧
        ∃ w', writeList w.tree "a/out" (findCodec "utf-8-sig") ["é", "", ""] = some w' ∧
          w'.result = .ok 3 ∧ ∀ q, w'.tree.at? q = w.tree.at? q := by
  have hplain : ∀ text ∈ ["é ", "", "  "], '\n' ∉ text.toList ∧ '\r' ∉ text.toList := by decide
  have hcan := isTarget_oneFile.canWrite fun _ => FileTree.start_path_of_names
  obtain ⟨hwrites, hencodings, hrereads⟩ :=
    writeList_rereads oneFile "a/out" (findCodec "utf-8-sig") ["é ", "", "  "] hplain
  obtain ⟨hline, hundoes, hcontent⟩ := hencodings .utf8Signed
  obtain ⟨content, hcontent⟩ := hcontent.2 fun _ _ => Encoding.exists_encode_iff.2 fun _ _ => rfl
  obtain ⟨w, hw, hresult⟩ := (hwrites 3).2 ⟨rfl, hcan, _, content, findCodec_signed, hcontent⟩
  obtain ⟨hreads, w', -, hw', hresult', -, -, hsame⟩ := hrereads w 3 hw hresult
  obtain ⟨text, lines, hread, hcut, hlines, -⟩ := hreads _ findCodec_signed hline hundoes
  obtain rfl : lines = ["é", "", ""] := hlines.trans (by decide)
  exact ⟨hplain, w, text, hw, hresult, hread, hcut, w', hw', hresult', hsame⟩

/-- Decoding undoes Punycode, and still the hyphen behind the first line is read as one of the
second. -/
theorem rereads_punycode_ne : Punycode.codec.Undoes ∧
    (∀ text ∈ ["a", "b"], '\n' ∉ text.toList ∧ '\r' ∉ text.toList) ∧
    ∃ w text, writeList oneFile "a/out" (findCodec "punycode") ["a", "b"] = some w ∧
      w.result = .ok 2 ∧ readText w.tree "a/out" (findCodec "punycode") = .ok text ∧
      cutLines text = ["a", "-b", ""] ∧ cutLines text ≠ ["a", "b"].map stripped ++ [""] := by
  have hcontent : IsContent Punycode.codec ["a", "b"] [0x61, 0x0A, 0x2D, 0x62, 0x0A, 0x2D] := rfl
  obtain ⟨w, hw, hresult⟩ := exists_writeList_iff.2 ⟨rfl,
    isTarget_oneFile.canWrite fun _ => FileTree.start_path_of_names, _, _, rfl, hcontent⟩
  obtain ⟨-, -, -, c, content, hcodec, hcontent', hfile⟩ := writeList_eq_ok hw hresult
  cases hcodec
  obtain rfl := hcontent.unique hcontent'
  have hfound : w.tree.content? (w.tree.path "a/out") = some (Punycode.encode "a\n-b\n") := by
    rw [FileTree.path_eq_of_home hfile.home]
    exact hfile.found
  have hread := readText_of_decode (c := Punycode.codec) hfound (Punycode.decode_encode _)
  rw [findCodec_punycode]
  exact ⟨Punycode.undoes_codec, by decide, w, _, hw, hresult, hread, by decide, by decide⟩

end SentenceFile

end BraceGrammar
