import BraceGrammar.Proofs.Loading
import BraceGrammar.Proofs.Token

/-!
# Grammars from files

A file that holds the bytes of a text is read as that text with unified line ends
(`readText_of_encode`).  No carriage return is left then, so the tokens of a grammar file are parted
by its blanks alone: a pair of carriage return and line feed, which is a blank in a text, is a line
feed within a token.  A file therefore declares what its text declares when the text holds no
carriage return, and is cut into other tokens whenever it does hold one.
-/

namespace BraceGrammar

/-! ## Line ends -/

namespace Text

theorem return_notMem_unifyLineEnds (l : List Char) : '\r' ∉ unifyLineEnds l := by
  fun_induction unifyLineEnds l with
  | case1 rest ih => simpa using ih
  | case2 rest hpair ih => simpa using ih
  | case3 c rest hpair hreturn ih =>
      rw [List.mem_cons, not_or]
      exact ⟨fun h => hreturn h.symm, ih⟩
  | case4 => exact List.not_mem_nil

theorem unifyLineEnds_of_notMem {l : List Char} (h : '\r' ∉ l) : unifyLineEnds l = l := by
  fun_induction unifyLineEnds l with
  | case1 rest ih => exact absurd List.mem_cons_self h
  | case2 rest hpair ih => exact absurd List.mem_cons_self h
  | case3 c rest hpair hreturn ih => rw [ih fun hrest => h (List.mem_cons_of_mem c hrest)]
  | case4 => rfl

end Text

namespace Token

theorem blankPairs_of_notMem {l : List Char} (h : '\r' ∉ l) : blankPairs l = l :=
  blankPairs_of_not_infix fun hpair => h (hpair.subset List.mem_cons_self)

/-- Each pair makes a difference, and so does each carriage return on its own: both are kept in
their places on either side. -/
theorem blankPairs_eq_unifyLineEnds_iff (l : List Char) :
    blankPairs l = Text.unifyLineEnds l ↔ '\r' ∉ l := by
  refine ⟨fun h => ?_, fun h => by rw [blankPairs_of_notMem h, Text.unifyLineEnds_of_notMem h]⟩
  fun_induction Text.unifyLineEnds l with
  | case1 rest ih =>
      rw [blankPairs] at h
      exact absurd (List.cons.inj h).1 (by decide)
  | case2 rest hpair ih =>
      rw [blankPairs_cons_of_head] at h
      · exact absurd (List.cons.inj h).1 (by decide)
      · rintro ⟨-, hhead⟩
        obtain ⟨tail, rfl⟩ := List.head?_eq_some_iff.1 hhead
        exact hpair tail rfl
  | case3 c rest hpair hreturn ih =>
      rw [blankPairs_cons_of_head fun hboth => hreturn hboth.1] at h
      rw [List.mem_cons, not_or]
      exact ⟨fun hc => hreturn hc.symm, ih (List.cons.inj h).2⟩
  | case4 => exact List.not_mem_nil

/-- Without carriage returns a text is cut at its blanks alone. -/
theorem split_of_notMem {text : String} (h : '\r' ∉ text.toList) :
    split text = (text.toList.splitOn ' ').map String.ofList := by
  rw [split, blankPairs_of_notMem h]

theorem split_eq_split_iff {s t : String} :
    split s = split t ↔ blankPairs s.toList = blankPairs t.toList := by
  refine ⟨fun h => ?_, fun h => by rw [split, split, h]⟩
  have hpieces : (blankPairs s.toList).splitOn ' ' = (blankPairs t.toList).splitOn ' ' := by
    have hmap := congrArg (List.map String.toList) h
    simpa [split, Function.comp_def] using hmap
  have hjoin := congrArg [' '].intercalate hpieces
  rwa [List.intercalate_splitOn, List.intercalate_splitOn] at hjoin

end Token

/-! ## Reading -/

theorem readText_of_decode {tree : FileTree} {path text : String} {content : Bytes} {c : Codec}
    (hcontent : tree.content? (tree.path path) = some content)
    (hdecode : c.decode content = .ok text) :
    readText tree path (.ok c) = .ok (String.ofList (Text.unifyLineEnds text.toList)) := by
  simp only [readText, hcontent, hdecode]

section Reading

variable {tree : FileTree} {path name text : String} {content : Bytes}
  (hname : findCodec name = .ok Encoding.utf8.codec)
  (hcontent : tree.content? (tree.path path) = some content)
  (hencode : Encoding.utf8.encode text = .ok content)

include hname hcontent hencode

theorem readText_of_encode : readText tree path (findCodec name) =
    .ok (String.ofList (Text.unifyLineEnds text.toList)) := by
  rw [hname]
  exact readText_of_decode hcontent
    (Encoding.codec_decode_eq_ok_iff.2 (Encoding.decode_of_encode_utf8 hencode))

/-- The grammar of a file that holds a text is that of the text with a line feed for each pair of
carriage return and line feed and for each carriage return on its own.  Its tokens are what stands
between blanks, so it is the grammar of the text itself if there is no carriage return, and is read
from other tokens if there is one. -/
theorem loadGrammar_of_encode : ∃ read : String,
    loadGrammar tree path (findCodec name) = .ok (.ofSource read) ∧
      read.toList = Text.unifyLineEnds text.toList ∧
      Token.split read = (read.toList.splitOn ' ').map String.ofList ∧
      ('\r' ∉ text.toList → read = text) ∧
      ('\r' ∈ text.toList → Token.split read ≠ Token.split text) := by
  refine ⟨String.ofList (Text.unifyLineEnds text.toList), ?_, String.toList_ofList, ?_, ?_, ?_⟩
  · rw [loadGrammar, readText_of_encode hname hcontent hencode]
    rfl
  · refine Token.split_of_notMem ?_
    rw [String.toList_ofList]
    exact Text.return_notMem_unifyLineEnds _
  · intro hnone
    rw [Text.unifyLineEnds_of_notMem hnone, String.ofList_toList]
  · intro hsome hsame
    rw [Token.split_eq_split_iff, String.toList_ofList,
      Token.blankPairs_of_notMem (Text.return_notMem_unifyLineEnds _)] at hsame
    exact (Token.blankPairs_eq_unifyLineEnds_iff _).1 hsame.symm hsome

end Reading

/-! ## A block with pairs -/

/-- A block whose first blank and last blank are pairs of carriage return and line feed. -/
def pairedBlock : String := "\x7b\r\n<S> é ;\r\n\x7d"

/-- The bytes of `pairedBlock`. -/
def pairedContent : Bytes :=
  [0x7B, 0x0D, 0x0A, 0x3C, 0x53, 0x3E, 0x20, 0xC3, 0xA9, 0x20, 0x3B, 0x0D, 0x0A, 0x7D]

def pairedFile : FileTree := .ofPaths (.ofNames ["w"]) [("g", .file pairedContent)]

theorem content?_pairedFile : pairedFile.content? (pairedFile.path "g") = some pairedContent := rfl

theorem encode_pairedBlock : Encoding.utf8.encode pairedBlock = .ok pairedContent :=
  Encoding.encode_eq_ok_iff.2 ⟨fun _ _ => rfl, by decide⟩

theorem loadGrammar_pairedFile :
    findCodec "utf-8" = .ok Encoding.utf8.codec ∧
      pairedFile.content? (pairedFile.path "g") = some pairedContent ∧
      Encoding.utf8.encode pairedBlock = .ok pairedContent ∧
      ∃ read : String, loadGrammar pairedFile "g" (findCodec "utf-8") = .ok (.ofSource read) ∧
        read = "\x7b\n<S> é ;\n\x7d" ∧ Token.split read = ["\x7b\n<S>", "é", ";\n\x7d"] := by
  refine ⟨fileCodec_eq, content?_pairedFile, encode_pairedBlock, ?_⟩
  obtain ⟨read, hload, hread, hsplit, -⟩ := loadGrammar_of_encode
    fileCodec_eq content?_pairedFile encode_pairedBlock
  have htext : read = "\x7b\n<S> é ;\n\x7d" := String.toList_injective (hread.trans (by decide))
  exact ⟨read, hload, htext, by rw [htext]; decide⟩

/-- The text declares a start symbol and the file that holds it declares none. -/
theorem loadGrammar_pairedFile_ne :
    pairedFile.content? (pairedFile.path "g") = some pairedContent ∧
      Encoding.utf8.encode pairedBlock = .ok pairedContent ∧
      (Grammar.ofSource pairedBlock).start? = some ⟨"<S>"⟩ ∧
      (∃ g, loadGrammar pairedFile "g" (findCodec "utf-8") = .ok g ∧ g.start? = none) ∧
      loadGrammar pairedFile "g" (findCodec "utf-8") ≠ .ok (.ofSource pairedBlock) := by
  have hname : findCodec "utf-8" = .ok Encoding.utf8.codec := fileCodec_eq
  have hload : loadGrammar pairedFile "g" (findCodec "utf-8") =
      .ok (.ofSource (String.ofList (Text.unifyLineEnds pairedBlock.toList))) := by
    rw [loadGrammar, readText_of_encode hname content?_pairedFile encode_pairedBlock]
    rfl
  have hstart : (Grammar.ofSource pairedBlock).start? = some ⟨"<S>"⟩ := by decide
  have hnone : (Grammar.ofSource (String.ofList (Text.unifyLineEnds pairedBlock.toList))).start? =
      none := by decide
  refine ⟨content?_pairedFile, encode_pairedBlock, hstart, ⟨_, hload, hnone⟩, fun hsame => ?_⟩
  have heq := Except.ok.inj (hload.symm.trans hsame)
  rw [heq, hstart] at hnone
  cases hnone

end BraceGrammar
