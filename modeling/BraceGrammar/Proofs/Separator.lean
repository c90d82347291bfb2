import BraceGrammar.Proofs.Rereading
import BraceGrammar.Proofs.RoundTrip
import Mathlib.Data.List.Induction

/-!
# The separator and the end of a line

A sentence has a blank behind each of its words, the last one included (`sentence_eq_join_append`).
A line is a sentence without any blanks at its end.  Words hold no blank, but they can be empty, and
then there are only blanks behind the word before them: the line is the words joined by blanks
without the empty ones at the end (`stripped_sentence`).

The words without the empty ones at the end can be told from the line again (`join_inj`), the words
with them cannot, so that sentences of different words may have one line.
-/

namespace BraceGrammar

namespace Derivation

variable {words words' : List String}

/-! ## Words joined by blanks -/

theorem sentence_append (xs ys : List String) : sentence (xs ++ ys) = sentence xs ++ sentence ys := by
  rw [sentence, List.map_append, String.join_append]
  rfl

theorem sentence_singleton (w : String) : sentence [w] = w ++ " " := by
  simp [sentence]

/-- Joining words leaves out the blank behind the last one. -/
theorem sentence_eq_join_append (h : words ≠ []) : sentence words = Token.join words ++ " " := by
  induction words with
  | nil => exact absurd rfl h
  | cons w words ih =>
      by_cases hlast : words = []
      · rw [hlast, sentence_singleton, Token.join, String.intercalate_singleton]
      · rw [sentence_cons, ih hlast, Token.join_cons hlast, ← String.append_assoc]

theorem join_concat (words : List String) (w : String) :
    Token.join (words ++ [w]) = sentence words ++ w := by
  have happend : sentence (words ++ [w]) = Token.join (words ++ [w]) ++ " " :=
    sentence_eq_join_append (by simp)
  rw [sentence_append, sentence_singleton, ← String.append_assoc, String.append_left_inj] at happend
  exact happend.symm

/-! ## Empty words at the end -/

/-- Words without the empty ones at the end. -/
def withoutEmptyEnd (words : List String) : List String := words.rdropWhile (· = "")

theorem withoutEmptyEnd_concat (words : List String) (w : String) :
    withoutEmptyEnd (words ++ [w]) = if w = "" then withoutEmptyEnd words else words ++ [w] := by
  simp [withoutEmptyEnd, List.rdropWhile_concat]

theorem withoutEmptyEnd_subset (words : List String) : withoutEmptyEnd words ⊆ words :=
  (List.rdropWhile_prefix _ _).subset

theorem getLast?_withoutEmptyEnd (words : List String) :
    (withoutEmptyEnd words).getLast? ≠ some "" := by
  induction words using List.reverseRecOn with
  | nil => simp [withoutEmptyEnd]
  | append_singleton words w ih =>
      rw [withoutEmptyEnd_concat]
      split
      · exact ih
      · next hw => simpa using hw

theorem withoutEmptyEnd_eq_self_iff :
    withoutEmptyEnd words = words ↔ words.getLast? ≠ some "" := by
  constructor
  · intro h
    rw [← h]
    exact getLast?_withoutEmptyEnd words
  · intro h
    induction words using List.reverseRecOn with
    | nil => rfl
    | append_singleton words w _ =>
        rw [withoutEmptyEnd_concat, if_neg (by simpa using h)]

theorem join_ne_empty (hne : words ≠ []) (hlast : words.getLast? ≠ some "") :
    Token.join words ≠ "" := by
  induction words using List.reverseRecOn with
  | nil => exact absurd rfl hne
  | append_singleton words w _ =>
      have hw : w ≠ "" := by simpa using hlast
      rw [join_concat, Ne, String.append_eq_empty_iff]
      exact fun h => hw h.2

/-- Words that do not end with an empty one are known from what they are joined to. -/
theorem join_inj (h : ∀ w ∈ words, ' ' ∉ w.toList) (h' : ∀ w ∈ words', ' ' ∉ w.toList)
    (hlast : words.getLast? ≠ some "") (hlast' : words'.getLast? ≠ some "") :
    Token.join words = Token.join words' ↔ words = words' := by
  refine ⟨fun heq => ?_, fun heq => by rw [heq]⟩
  by_cases hne : words = []
  · by_cases hne' : words' = []
    · rw [hne, hne']
    · rw [hne] at heq
      exact absurd heq.symm (join_ne_empty hne' hlast')
  · by_cases hne' : words' = []
    · rw [hne'] at heq
      exact absurd heq (join_ne_empty hne hlast)
    · rw [← sentence_inj h h', sentence_eq_join_append hne, sentence_eq_join_append hne', heq]

end Derivation

namespace SentenceFile

open BraceGrammar.Derivation

variable {words words' : List String} {w : String}

/-! ## The line of a sentence -/

theorem stripped_append_blank (s : String) : stripped (s ++ " ") = stripped s := by
  apply String.toList_inj.1
  rw [toList_stripped, toList_stripped, String.toList_append]
  exact List.rdropWhile_concat_pos _ _ _ (by decide)

/-- Nothing is taken off behind a word. -/
theorem stripped_append (hne : w ≠ "") (h : ' ' ∉ w.toList) (s : String) :
    stripped (s ++ w) = s ++ w := by
  apply String.toList_inj.1
  rw [toList_stripped, List.rdropWhile_eq_self_iff, String.toList_append]
  intro _ hlast
  have hw : w.toList ≠ [] := fun hempty => hne (String.toList_eq_nil_iff.1 hempty)
  rw [List.getLast_append_of_ne_nil _ hw, decide_eq_true_iff] at hlast
  exact h (hlast ▸ List.getLast_mem hw)

/-- The line of a sentence is its words joined by blanks, without the empty words at the end. -/
theorem stripped_sentence (h : ∀ w ∈ words, ' ' ∉ w.toList) :
    stripped (sentence words) = Token.join (withoutEmptyEnd words) := by
  induction words using List.reverseRecOn with
  | nil => rfl
  | append_singleton words w ih =>
      rw [List.forall_mem_append, List.forall_mem_singleton] at h
      rw [sentence_append, sentence_singleton, ← String.append_assoc, stripped_append_blank,
        withoutEmptyEnd_concat]
      split
      · next hw =>
        rw [hw, String.append_empty]
        exact ih h.1
      · next hw => rw [stripped_append hw h.2, join_concat]

theorem line_sentence (h : ∀ w ∈ words, ' ' ∉ w.toList) :
    line (sentence words) = Token.join (withoutEmptyEnd words) ++ "\n" := by
  rw [line_eq, stripped_sentence h]

theorem line_sentence_inj (h : ∀ w ∈ words, ' ' ∉ w.toList) (h' : ∀ w ∈ words', ' ' ∉ w.toList) :
    line (sentence words) = line (sentence words') ↔
      withoutEmptyEnd words = withoutEmptyEnd words' := by
  rw [line_sentence h, line_sentence h', String.append_left_inj,
    join_inj (fun w hw => h w (withoutEmptyEnd_subset words hw))
      (fun w hw => h' w (withoutEmptyEnd_subset words' hw)) (getLast?_withoutEmptyEnd words)
      (getLast?_withoutEmptyEnd words')]

/-- The line is the words joined by blanks when the last of them is not empty, or has none before
it. -/
theorem line_sentence_eq_iff (h : ∀ w ∈ words, ' ' ∉ w.toList) :
    line (sentence words) = Token.join words ++ "\n" ↔
      words.getLast? ≠ some "" ∨ words = [""] := by
  rw [line_sentence h, String.append_left_inj]
  constructor
  · intro hjoin
    by_cases hne : words = []
    · left
      simp [hne]
    have hwords := sentence_eq_join_append hne
    rw [← hjoin] at hwords
    by_cases hend : withoutEmptyEnd words = []
    · right
      have hblank : sentence words = sentence [""] := by
        rw [hwords, hend]
        rfl
      exact (sentence_inj h (by simp)).1 hblank
    · left
      have hsubset : ∀ w ∈ withoutEmptyEnd words, ' ' ∉ w.toList :=
        fun w hw => h w (withoutEmptyEnd_subset words hw)
      rw [← sentence_eq_join_append hend, sentence_inj h hsubset, eq_comm] at hwords
      exact withoutEmptyEnd_eq_self_iff.1 hwords
  · rintro (hlast | rfl)
    · rw [withoutEmptyEnd_eq_self_iff.2 hlast]
    · rfl

end SentenceFile

/-! ## Sentences of a text's grammar -/

open BraceGrammar.Derivation

/-- Some derivation from the start symbol emits these words and returns this text. -/
def Grammar.CanEmit (g : Grammar) (words : List String) (text : String) : Prop :=
  ∃ (σ : Type) (limit : Option Int) (ask : Nat → σ → Int × σ) (source : σ),
    g.Emits limit ask source words text

namespace SentenceFile

open BraceGrammar.Grammar

theorem blankless_of_canEmit {source text : String} {words : List String}
    (h : (ofSource source).CanEmit words text) :
    text = sentence words ∧ ∀ w ∈ words, ' ' ∉ w.toList := by
  obtain ⟨σ, limit, ask, state, hemits⟩ := h
  exact ⟨hemits.eq_sentence, fun w hw => (hemits.isWhole w hw).1⟩

theorem eq_map_of_canEmit {source : String} {emitted : List (List String)} {texts : List String}
    (h : List.Forall₂ (ofSource source).CanEmit emitted texts) :
    texts = emitted.map sentence ∧ ∀ words ∈ emitted, ∀ w ∈ words, ' ' ∉ w.toList := by
  induction h with
  | nil => exact ⟨rfl, by simp⟩
  | cons hfirst _ ih =>
      obtain ⟨rfl, hwords⟩ := blankless_of_canEmit hfirst
      exact ⟨by rw [ih.1, List.map_cons], List.forall_mem_cons.2 ⟨hwords, ih.2⟩⟩

/-- The line of a sentence is the words that were emitted, joined by blanks, without the empty words
at their end.  With these it would be another line, unless one empty word is all that was emitted,
so that two sentences have one line when their words are the same but for empty ones at the end.
Sentences whose words hold no line feed are written to as many lines, in order, with every codec
that lines are the same in one after the other as at once and that is undone by decoding, as every
encoding is. -/
theorem lines_of_emitted (source : String) :
    (∀ words text, (ofSource source).CanEmit words text →
      line text = Token.join (withoutEmptyEnd words) ++ "\n" ∧
      (line text = Token.join words ++ "\n" ↔ words.getLast? ≠ some "" ∨ words = [""]) ∧
      ∀ words' text', (ofSource source).CanEmit words' text' →
        (line text = line text' ↔ withoutEmptyEnd words = withoutEmptyEnd words')) ∧
    (∀ emitted texts, List.Forall₂ (ofSource source).CanEmit emitted texts →
      (∀ words ∈ emitted, ∀ w ∈ words, '\n' ∉ w.toList) →
      ∀ t path codec w n, writeList t path codec texts = some w → w.result = .ok n →
        n = emitted.length ∧ ∃ c content, codec = .ok c ∧
          w.tree.content? (t.path path) = some content ∧
          (c.IsLinewise → c.Undoes → ∃ text, c.decode content = .ok text ∧
            cutLines text =
              (emitted.map fun words => Token.join (withoutEmptyEnd words)) ++ [""])) ∧
    ∀ e : Encoding, e.codec.IsLinewise ∧ e.codec.Undoes := by
  refine ⟨?_, ?_, fun e => ⟨e.isLinewise_codec, e.undoes_codec⟩⟩
  · intro words text h
    obtain ⟨rfl, hwords⟩ := blankless_of_canEmit h
    refine ⟨line_sentence hwords, line_sentence_eq_iff hwords, fun words' text' h' => ?_⟩
    obtain ⟨rfl, hwords'⟩ := blankless_of_canEmit h'
    exact line_sentence_inj hwords hwords'
  · intro emitted texts h hfeeds t path codec w n hw hresult
    obtain ⟨rfl, -, -, c, content, hcodec, hcontent, hfile⟩ := writeList_eq_ok hw hresult
    obtain ⟨rfl, hblankless⟩ := eq_map_of_canEmit h
    have hlines : ∀ text ∈ emitted.map sentence, '\n' ∉ text.toList := by
      intro text htext
      obtain ⟨words, hwords, rfl⟩ := List.mem_map.1 htext
      exact lineFeed_notMem_sentence (hfeeds words hwords)
    refine ⟨List.length_map _, c, content, hcodec, hfile.found, fun hline hundoes =>
      ⟨_, decode_of_isContent hline hundoes hcontent, ?_⟩⟩
    rw [cutLines_lines hlines, List.map_map]
    exact congrArg (· ++ [""])
      (List.map_congr_left fun words hwords => stripped_sentence (hblankless words hwords))

/-! ## An empty word at the end -/

/-- A body with an empty word at its end, and the body without it. -/
def emptyLast : String := "\x7b <S> a  ; a ; \x7d"

/-- The first body and the second one are chosen. -/
theorem canEmit_emptyLast : (ofSource emptyLast).CanEmit ["a", ""] "a  " ∧
    (ofSource emptyLast).CanEmit ["a"] "a " :=
  ⟨⟨Unit, none, fun _ s => (0, s), (), 9, 1, (), rfl, rfl⟩,
    ⟨Unit, none, fun _ s => (1, s), (), 9, 1, (), rfl, rfl⟩⟩

theorem lines_of_emptyLast :
    List.Forall₂ (ofSource emptyLast).CanEmit [["a", ""], ["a"]] ["a  ", "a "] ∧
      (∀ words ∈ [["a", ""], ["a"]], ∀ w ∈ words, '\n' ∉ w.toList) ∧
      ∃ w content text, writeList emptyTree "o" (findCodec "utf-8") ["a  ", "a "] = some w ∧
        w.result = .ok 2 ∧ cutLines text = ["a", "a", ""] ∧
        w.tree.content? (emptyTree.path "o") = some content ∧
        Encoding.utf8.codec.decode content = .ok text := by
  have hemits : List.Forall₂ (ofSource emptyLast).CanEmit [["a", ""], ["a"]] ["a  ", "a "] :=
    .cons canEmit_emptyLast.1 (.cons canEmit_emptyLast.2 .nil)
  have hfeeds : ∀ words ∈ [["a", ""], ["a"]], ∀ w ∈ words, '\n' ∉ w.toList := by decide
  have hname : findCodec "utf-8" = .ok Encoding.utf8.codec :=
    findCodec_of_ofName? (by decide) rfl
  obtain ⟨w, hw, hresult⟩ : ∃ w,
      writeList emptyTree "o" (findCodec "utf-8") ["a  ", "a "] = some w ∧ w.result = .ok 2 :=
    ⟨_, rfl, rfl⟩
  obtain ⟨-, hwritten, hencodings⟩ := lines_of_emitted emptyLast
  obtain ⟨-, c, content, hcodec, hfound, hreads⟩ := hwritten _ _ hemits hfeeds _ _ _ w 2 hw hresult
  obtain rfl := Except.ok.inj (hname.symm.trans hcodec)
  obtain ⟨hline, hundoes⟩ := hencodings .utf8
  obtain ⟨text, hdecode, hcut⟩ := hreads hline hundoes
  exact ⟨hemits, hfeeds, w, content, text, hw, hresult, hcut, hfound, hdecode⟩

/-- The blank between the words is lost, and two sentences of different words have one line. -/
theorem line_emptyLast :
    (ofSource emptyLast).CanEmit ["a", ""] "a  " ∧ (ofSource emptyLast).CanEmit ["a"] "a " ∧
      line "a  " = "a\n" ∧ Token.join ["a", ""] ++ "\n" = "a \n" ∧ line "a  " = line "a " ∧
      ∃ w, writeList emptyTree "o" (findCodec "utf-8") ["a  "] = some w ∧ w.result = .ok 1 ∧
        w.tree.content? (emptyTree.path "o") = some [0x61, 0x0A] :=
  ⟨canEmit_emptyLast.1, canEmit_emptyLast.2, by decide, by decide, by decide, _, rfl, rfl, rfl⟩

end SentenceFile

end BraceGrammar
