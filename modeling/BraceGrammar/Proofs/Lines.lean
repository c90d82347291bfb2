import BraceGrammar.Proofs.Encoding
import BraceGrammar.Proofs.StreamFile
import BraceGrammar.Proofs.Words
import Mathlib.Data.List.DropRight

/-!
# The lines of a sentence file

The line of a sentence is the sentence without the blanks at its end, and a line feed.  Blanks are
all that is taken away, so every line feed of a sentence's words is in the file, in addition to the
one at the end of each line (`lineFeeds_lines`).  A file of sentences without line feeds falls at
its line feeds into the sentences (`cutLines_lines`); one line holds one sentence then, and not
otherwise.
-/

namespace BraceGrammar

open BraceGrammar.Derivation

namespace SentenceFile

/-! ## Line feeds -/

def lineFeeds (text : String) : Nat := text.toList.count '\n'

/-- The pieces of a text between its line feeds. -/
def cutLines (text : String) : List String := (text.toList.splitOn '\n').map String.ofList

theorem lineFeeds_append (s t : String) : lineFeeds (s ++ t) = lineFeeds s + lineFeeds t := by
  rw [lineFeeds, String.toList_append, List.count_append]
  rfl

theorem lineFeeds_eq_zero_iff {text : String} : lineFeeds text = 0 ↔ '\n' ∉ text.toList :=
  List.count_eq_zero

theorem cutLines_append_lineFeed {s : String} (h : '\n' ∉ s.toList) (t : String) :
    cutLines (s ++ "\n" ++ t) = s :: cutLines t := by
  have htext : (s ++ "\n" ++ t).toList = s.toList ++ '\n' :: t.toList := by simp
  rw [cutLines, htext, Token.map_splitOn_append h]
  rfl

theorem lineFeeds_join_cons (text : String) (texts : List String) :
    lineFeeds (String.join (text :: texts)) = lineFeeds text + lineFeeds (String.join texts) := by
  rw [String.join_cons, lineFeeds_append]

theorem lineFeeds_join_append (xs ys : List String) :
    lineFeeds (String.join (xs ++ ys)) =
      lineFeeds (String.join xs) + lineFeeds (String.join ys) := by
  rw [String.join_append, lineFeeds_append]

theorem lineFeeds_join_eq_zero_iff {texts : List String} :
    lineFeeds (String.join texts) = 0 ↔ ∀ text ∈ texts, '\n' ∉ text.toList := by
  induction texts with
  | nil => exact ⟨fun _ _ hmem => absurd hmem List.not_mem_nil, fun _ => rfl⟩
  | cons text texts ih =>
      rw [lineFeeds_join_cons, Nat.add_eq_zero_iff, ih, lineFeeds_eq_zero_iff, List.forall_mem_cons]

/-- The blank after each word is no line feed. -/
theorem lineFeeds_sentence (words : List String) :
    lineFeeds (sentence words) = lineFeeds (String.join words) := by
  induction words with
  | nil => rfl
  | cons w words ih =>
      have hblank : lineFeeds " " = 0 := by decide
      rw [sentence_cons, lineFeeds_append, lineFeeds_append, hblank, ih, lineFeeds_join_cons,
        Nat.add_zero]

theorem lineFeed_notMem_sentence {words : List String} (h : ∀ w ∈ words, '\n' ∉ w.toList) :
    '\n' ∉ (sentence words).toList := by
  rw [← lineFeeds_eq_zero_iff, lineFeeds_sentence, lineFeeds_join_eq_zero_iff]
  exact h

/-! ## Lines -/

/-- A sentence without the blanks at its end. -/
def stripped (text : String) : String :=
  String.ofList (text.toList.reverse.dropWhile (· = ' ')).reverse

theorem line_eq (text : String) : line text = stripped text ++ "\n" := by
  rw [line, stripped, String.ofList_append]

theorem toList_stripped (text : String) :
    (stripped text).toList = text.toList.rdropWhile (· = ' ') := String.toList_ofList

/-- What is taken off the end of a sentence is blanks. -/
theorem exists_stripped_append (text : String) :
    ∃ n, text.toList = (stripped text).toList ++ List.replicate n ' ' := by
  have hblanks : text.toList.rtakeWhile (· = ' ') =
      List.replicate (text.toList.rtakeWhile (· = ' ')).length ' ' :=
    List.eq_replicate_of_mem fun c hc => by simpa using List.mem_rtakeWhile_imp hc
  refine ⟨(text.toList.rtakeWhile (· = ' ')).length, ?_⟩
  rw [toList_stripped, ← hblanks, List.rdropWhile_append_rtakeWhile]

theorem lineFeeds_stripped (text : String) : lineFeeds (stripped text) = lineFeeds text := by
  obtain ⟨n, hn⟩ := exists_stripped_append text
  rw [lineFeeds, lineFeeds, hn, List.count_append, List.count_replicate, if_neg (by decide),
    Nat.add_zero]

theorem lineFeeds_line (text : String) : lineFeeds (line text) = lineFeeds text + 1 := by
  rw [line_eq, lineFeeds_append, lineFeeds_stripped]
  rfl

theorem notMem_stripped {c : Char} {text : String} (h : c ∉ text.toList) :
    c ∉ (stripped text).toList := by
  intro hc
  rw [toList_stripped] at hc
  exact h ((List.rdropWhile_prefix _ _).subset hc)

/-- The lines of sentences have a line feed each, and all those of the words. -/
theorem lineFeeds_lines (emitted : List (List String)) :
    lineFeeds (String.join ((emitted.map sentence).map line)) =
      emitted.length + lineFeeds (String.join emitted.flatten) := by
  induction emitted with
  | nil => rfl
  | cons words emitted ih =>
      rw [List.map_cons, List.map_cons, lineFeeds_join_cons, lineFeeds_line, lineFeeds_sentence, ih,
        List.flatten_cons, lineFeeds_join_append, List.length_cons]
      omega

/-- Lines of sentences without line feeds are cut into the sentences. -/
theorem cutLines_lines {texts : List String} (h : ∀ text ∈ texts, '\n' ∉ text.toList) :
    cutLines (String.join (texts.map line)) = texts.map stripped ++ [""] := by
  induction texts with
  | nil => rfl
  | cons text texts ih =>
      rw [List.forall_mem_cons] at h
      rw [List.map_cons, String.join_cons, line_eq, cutLines_append_lineFeed (notMem_stripped h.1),
        ih h.2, List.map_cons, List.cons_append]

end SentenceFile

/-! ## Sentences in sequence -/

namespace Grammar

variable {σ : Type} {g : Grammar} {limit : Option Int} {ask : Nat → σ → Int × σ} {fuel n : Nat}
  {source rest : σ} {texts : List String}

/-- Each sentence of a sequence is made of words that can come from the grammar. -/
theorem exists_words_of_generateEach
    (h : generateEach g.table limit ask fuel g.start? n source = some (texts.map .ok, rest)) :
    ∃ emitted : List (List String), texts = emitted.map sentence ∧
      ∀ words ∈ emitted, ∀ w ∈ words, (⟨w⟩ : Symbol).isPlain = true ∧ g.HasWord w := by
  induction n generalizing source texts with
  | zero =>
      obtain ⟨htexts, -⟩ := Prod.mk.inj (Option.some.inj h)
      rw [eq_comm, List.map_eq_nil_iff] at htexts
      exact ⟨[], htexts, fun _ hmem => absurd hmem List.not_mem_nil⟩
  | succ n ih =>
      obtain ⟨result, others, mid, hfirst, hothers, hresults⟩ := generateEach_succ_iff.1 h
      obtain ⟨text, texts, rfl, rfl, rfl⟩ := List.map_eq_cons_iff.1 hresults
      obtain ⟨emitted, rfl, hemitted⟩ := ih hothers
      obtain ⟨words, hwords⟩ := exists_emits hfirst
      refine ⟨words :: emitted, by rw [hwords.eq_sentence, List.map_cons], ?_⟩
      rw [List.forall_mem_cons]
      exact ⟨hwords.hasWord, hemitted⟩

end Grammar

/-! ## Files of streams -/

namespace SentenceFile

/-- When the writing of a stream's sentences returns their number, the file is their lines in order.
The file has a line feed for each sentence, and in addition those that the words of the sentences
hold, which are words of the grammar.  So there are as many lines as sentences just when no word has
a line feed in it, and each line is its sentence without the blanks at its end then. -/
theorem lines_of_writeStream {σ : Type} (source : String) (count : Int) (limit : Option Int)
    (displayed : Bool) (ask : Nat → σ → Int × σ) (fuel : Nat) (tree : FileTree)
    (path name : String) (s : SentenceStream) (state : σ) (w : Written (SentenceStream × σ))
    (n : Nat) (hname : findCodec name = .ok Encoding.utf8.codec)
    (hstream : SentenceStream.ofGrammar (.ofSource source) count limit displayed = .ok s)
    (hwrite : writeStream (Grammar.ofSource source).table ask fuel tree path (findCodec name) s
      state = some w)
    (hresult : w.result = .ok n) :
    n = count.toNat ∧ ∃ (emitted : List (List String)) (content : Bytes) (text : String),
      generateEach (Grammar.ofSource source).table limit ask fuel (Grammar.ofSource source).start? n
          state = some ((emitted.map sentence).map .ok, w.rest.2) ∧
        (∀ words ∈ emitted, ∀ word ∈ words,
          (⟨word⟩ : Symbol).isPlain = true ∧ (Grammar.ofSource source).HasWord word) ∧
        w.tree.content? (tree.path path) = some content ∧
        Encoding.utf8.decode content = .ok text ∧
        text = String.join ((emitted.map sentence).map line) ∧
        lineFeeds text = n + lineFeeds (String.join emitted.flatten) ∧
        (lineFeeds text = n ↔ ∀ words ∈ emitted, ∀ word ∈ words, '\n' ∉ word.toList) ∧
        (lineFeeds text = n → cutLines text = (emitted.map sentence).map stripped ++ [""]) := by
  obtain ⟨S, hstart, -, rfl⟩ := SentenceStream.ofGrammar_eq_ok_iff.1 hstream
  rw [hname] at hwrite
  obtain ⟨texts, content, hok, hall, hcontent, hgains⟩ | ⟨failure, -, -, hfails, -⟩ |
    ⟨fault, hfails, -⟩ := writeStream_cases hwrite
  · obtain rfl : count.toNat = n := Except.ok.inj (hok.symm.trans hresult)
    rw [isContent_utf8_iff] at hcontent
    rw [← hstart] at hall
    have hlength : texts.length = count.toNat := by
      rw [← length_of_generateEach hall, List.length_map]
    obtain ⟨emitted, rfl, hwords⟩ := Grammar.exists_words_of_generateEach hall
    rw [List.length_map] at hlength
    have hfeeds := lineFeeds_lines emitted
    rw [hlength] at hfeeds
    have hnone : lineFeeds (String.join ((emitted.map sentence).map line)) = count.toNat ↔
        lineFeeds (String.join emitted.flatten) = 0 := by
      omega
    refine ⟨rfl, emitted, content, _, hall, hwords, hgains.found,
      Encoding.decode_of_encode_utf8 hcontent, rfl, hfeeds, ?_, fun h => ?_⟩
    · rw [hnone, lineFeeds_join_eq_zero_iff]
      simp only [List.mem_flatten]
      exact ⟨fun h words hmem word hword => h word ⟨words, hmem, hword⟩,
        fun h word ⟨words, hmem, hword⟩ => h words hmem word hword⟩
    · refine cutLines_lines fun text htext => ?_
      obtain ⟨words, hmem, rfl⟩ := List.mem_map.1 htext
      rw [← lineFeeds_eq_zero_iff, lineFeeds_sentence, lineFeeds_join_eq_zero_iff]
      exact fun word hword => lineFeeds_join_eq_zero_iff.1 (hnone.1 h) word
        (List.mem_flatten.2 ⟨words, hmem, hword⟩)
  · rw [hresult] at hfails
    cases hfails
  · rw [hresult] at hfails
    cases hfails

/-! ## A sentence on two lines -/

/-- A body with the symbol for the line feed between two words. -/
def brokenLine : String := "\x7b <S> a \\n b ; \x7d"

def emptyTree : FileTree := .ofPaths (.ofNames ["w"]) []

def brokenStream : SentenceStream := ⟨⟨"<S>"⟩, none, 1⟩

theorem ofGrammar_brokenLine :
    SentenceStream.ofGrammar (.ofSource brokenLine) 1 none false = .ok brokenStream :=
  SentenceStream.ofGrammar_eq_ok_iff.2 ⟨⟨"<S>"⟩, by decide, by decide, rfl⟩

theorem write_brokenLine : ∃ w,
    writeStream (Grammar.ofSource brokenLine).table Choice.Source.ask 9 emptyTree "o"
        (findCodec "utf-8") brokenStream (.constant 0) = some w ∧ w.result = .ok 1 ∧
      w.tree.content? (emptyTree.path "o") = some [0x61, 0x20, 0x0A, 0x20, 0x62, 0x0A] :=
  ⟨_, rfl, rfl, rfl⟩

theorem lines_of_brokenLine :
    findCodec "utf-8" = .ok Encoding.utf8.codec ∧
      SentenceStream.ofGrammar (.ofSource brokenLine) 1 none false = .ok brokenStream ∧
      ∃ w, writeStream (Grammar.ofSource brokenLine).table Choice.Source.ask 9 emptyTree "o"
          (findCodec "utf-8") brokenStream (.constant 0) = some w ∧ w.result = .ok 1 ∧
        ∃ (emitted : List (List String)) (text : String),
          text = String.join ((emitted.map sentence).map line) ∧
            lineFeeds text = 1 + lineFeeds (String.join emitted.flatten) := by
  have hname : findCodec "utf-8" = .ok Encoding.utf8.codec :=
    findCodec_of_ofName? (by decide) rfl
  obtain ⟨w, hw, hresult, -⟩ := write_brokenLine
  obtain ⟨-, emitted, -, text, -, -, -, -, htext, hfeeds, -⟩ := lines_of_writeStream brokenLine 1
    none false _ _ _ _ _ _ _ _ _ hname ofGrammar_brokenLine hw hresult
  exact ⟨hname, ofGrammar_brokenLine, w, hw, hresult, emitted, text, htext, hfeeds⟩

/-- One sentence is written and the file has two lines. -/
theorem lineFeeds_brokenLine :
    SentenceStream.ofGrammar (.ofSource brokenLine) 1 none false = .ok brokenStream ∧
      ∃ w content text,
        writeStream (Grammar.ofSource brokenLine).table Choice.Source.ask 9 emptyTree "o"
            (findCodec "utf-8") brokenStream (.constant 0) = some w ∧
          w.result = .ok 1 ∧ w.tree.content? (emptyTree.path "o") = some content ∧
          Encoding.utf8.decode content = .ok text ∧ text = "a \n b\n" ∧ lineFeeds text = 2 ∧
          cutLines text = ["a ", " b", ""] := by
  obtain ⟨w, hw, hresult, hcontent⟩ := write_brokenLine
  exact ⟨ofGrammar_brokenLine, w, _, _, hw, hresult, hcontent, Encoding.decode_utf8_of_lt rfl, rfl,
    by decide, by decide⟩

end SentenceFile

end BraceGrammar
