import BraceGrammar.Proofs.Reachable
import BraceGrammar.Proofs.Writable

/-!
# The words of a sentence

A derivation emits the texts of plain symbols that are reachable from its start symbol
(`Derivation.Ends.exists_reachable_of_mem`): whatever the source answers, a symbol gives way to
symbols that are reachable when it is (`Derivation.reachable_of_becomes`).

In a grammar that has been read from a text no such symbol holds a blank, so that cutting a sentence
at its blanks gives back the words it was made of, and an empty piece behind the last blank.
-/

namespace BraceGrammar

/-! ## Cutting at blanks -/

namespace Token

/-- The pieces of a text between its blanks. -/
def cut (text : String) : List String := (text.toList.splitOn ' ').map String.ofList

/-- A text without a character is the first piece of what has the character behind it. -/
theorem map_splitOn_append {c : Char} {s : String} (h : c ∉ s.toList) (l : List Char) :
    ((s.toList ++ c :: l).splitOn c).map String.ofList =
      s :: (l.splitOn c).map String.ofList := by
  rw [List.splitOn_append_cons_self_of_not_mem h, List.map_cons, String.ofList_toList]

theorem cut_append_blank {s : String} (h : ' ' ∉ s.toList) (t : String) :
    cut (s ++ " " ++ t) = s :: cut t := by
  have htext : (s ++ " " ++ t).toList = s.toList ++ ' ' :: t.toList := by simp
  rw [cut, htext, map_splitOn_append h]
  rfl

end Token

namespace Derivation

theorem sentence_cons (w : String) (words : List String) :
    sentence (w :: words) = w ++ " " ++ sentence words := by
  rw [sentence, List.map_cons, String.join_cons]
  rfl

/-- A sentence falls into its words, with nothing behind the last of its blanks. -/
theorem cut_sentence {words : List String} (h : ∀ w ∈ words, ' ' ∉ w.toList) :
    Token.cut (sentence words) = words ++ [""] := by
  induction words with
  | nil => rfl
  | cons w words ih =>
      rw [List.forall_mem_cons] at h
      rw [sentence_cons, Token.cut_append_blank h.1, ih h.2, List.cons_append]

theorem sentence_inj {words words' : List String} (h : ∀ w ∈ words, ' ' ∉ w.toList)
    (h' : ∀ w ∈ words', ' ' ∉ w.toList) : sentence words = sentence words' ↔ words = words' := by
  constructor
  · intro heq
    have hcut : words ++ [""] = words' ++ [""] := by
      rw [← cut_sentence h, ← cut_sentence h', heq]
    exact List.append_cancel_right hcut
  · rintro rfl
    rfl

/-! ## Words on the way -/

variable {σ : Type} {T : Table} {limit : Option Int} {ask : Nat → σ → Int × σ} {S : Symbol}

/-- The words that a symbol leaves are its own text, if it is plain. -/
theorem mem_words_of_becomes {X : Symbol} {n n' : Nat} {source source' : σ} {ws : List String}
    {symbols : Body} (h : replace T limit ask X n source = .becomes ws symbols n' source')
    {w : String} (hw : w ∈ ws) : X.isPlain = true ∧ w = X.text := by
  rcases replace_becomes_cases h with ⟨hplain, rfl, -, -, -⟩ | ⟨-, rfl, -, -, -⟩
  · exact ⟨hplain, List.mem_singleton.1 hw⟩
  · cases hw

/-- Every word of a run comes of a plain symbol that is reachable, when all that is pending is. -/
theorem Ends.exists_reachable_of_mem {s : State σ} {e : Ending σ} (h : Ends T limit ask s e)
    (hpending : ∀ Y ∈ s.pending, Reachable T S Y) {words : List String}
    (hwords : e.result = .ok words) {w : String} (hw : w ∈ words) (hnew : w ∉ s.words) :
    ∃ Y, Reachable T S Y ∧ Y.isPlain = true ∧ w = Y.text := by
  induction h using Ends.induct_pending with
  | nil before n source =>
      cases hwords
      exact absurd (List.mem_reverse.1 hw) hnew
  | fails => cases hwords
  | becomes X pending before n source ws symbols n' source' e hbecomes _ ih =>
      rw [List.forall_mem_cons] at hpending
      by_cases hws : w ∈ ws
      · obtain ⟨hplain, rfl⟩ := mem_words_of_becomes hbecomes hws
        exact ⟨X, hpending.1, hplain, rfl⟩
      · have hpending' : ∀ Y ∈ symbols ++ pending, Reachable T S Y := by
          intro Y hY
          rcases List.mem_append.1 hY with hY | hY
          · exact reachable_of_becomes hbecomes hpending.1 Y hY
          · exact hpending.2 Y hY
        have hnew' : w ∉ ws.reverse ++ before := by
          rw [List.mem_append, List.mem_reverse]
          rintro (hmem | hmem)
          · exact hws hmem
          · exact hnew hmem
        exact ih hpending' hwords hnew'

end Derivation

/-! ## Sentences of a grammar -/

namespace Grammar

open BraceGrammar.Derivation

variable {σ : Type}

/-- A derivation from the start symbol emits words, one after the other, and returns a text. -/
def Emits (g : Grammar) (limit : Option Int) (ask : Nat → σ → Int × σ) (source : σ)
    (words : List String) (text : String) : Prop :=
  ∃ fuel n rest, derive g.table limit ask fuel g.start? source = some ⟨.ok words, n, rest⟩ ∧
    generate g.table limit ask fuel g.start? source = some (.ok text, rest)

/-- Where a word of a sentence can come from: it is the start symbol, or stands in a body of a head
that is reachable from there. -/
def HasWord (g : Grammar) (w : String) : Prop :=
  ∃ S, g.start? = some S ∧
    ((S.isPlain = true ∧ w = S.text) ∨
      ∃ X bodies body, Reachable g.table S X ∧ X.isBracketed = true ∧
        g.table.bodies? X = some bodies ∧ body ∈ bodies ∧ (⟨w⟩ : Symbol) ∈ body)

variable {g : Grammar} {limit : Option Int} {ask : Nat → σ → Int × σ} {source : σ}
  {words : List String} {text : String}

theorem exists_emits {fuel : Nat} {rest : σ}
    (h : generate g.table limit ask fuel g.start? source = some (.ok text, rest)) :
    ∃ words, g.Emits limit ask source words text := by
  obtain ⟨words, n, hderive, -⟩ := generate_eq_ok_iff.1 h
  exact ⟨words, fuel, n, rest, hderive, h⟩

theorem Emits.eq_sentence (h : g.Emits limit ask source words text) : text = sentence words := by
  obtain ⟨fuel, n, rest, hderive, hgenerate⟩ := h
  rw [generate, hderive, Option.map_some, Option.some.injEq, Prod.mk.injEq] at hgenerate
  exact (Except.ok.inj hgenerate.1).symm

/-- Words that are emitted are plain, and come from where words can come from. -/
theorem Emits.hasWord (h : g.Emits limit ask source words text) :
    ∀ w ∈ words, (⟨w⟩ : Symbol).isPlain = true ∧ g.HasWord w := by
  obtain ⟨fuel, n, rest, hderive, -⟩ := h
  intro w hw
  cases hstart : g.start? with
  | none =>
      rw [hstart, derive, Option.some.injEq, Ending.mk.injEq] at hderive
      cases hderive.1
      cases hw
  | some S =>
      rw [hstart] at hderive
      have hends : Ends g.table limit ask ⟨[S], [], 0, source⟩ ⟨.ok words, n, rest⟩ :=
        exists_run_iff.1 ⟨fuel, hderive⟩
      have hpending : ∀ Y ∈ [S], Reachable g.table S Y := by
        intro Y hY
        rw [List.mem_singleton.1 hY]
        exact .start
      obtain ⟨Y, hreachable, hplain, rfl⟩ :=
        hends.exists_reachable_of_mem hpending rfl hw List.not_mem_nil
      refine ⟨hplain, S, hstart, ?_⟩
      rcases hreachable.eq_or_mem_body with rfl | hbody
      · exact .inl ⟨hplain, rfl⟩
      · exact .inr hbody

/-- In a grammar that can be written all words are whole. -/
theorem IsWritable.isWhole_of_hasWord (h : g.IsWritable) {w : String} (hw : g.HasWord w) :
    Token.IsWhole w := by
  obtain ⟨S, hstart, ⟨-, rfl⟩ | ⟨X, bodies, body, -, -, hfind, hbody, hmem⟩⟩ := hw
  · obtain ⟨bodies, hfind⟩ := h.exists_bodies_of_start hstart
    exact ((Table.isWritable_iff g.table).1 h.1 S bodies hfind).1.1
  · exact (((Table.isWritable_iff g.table).1 h.1 X bodies hfind).2 body hbody _ hmem).1

theorem Emits.isWhole {source' : String}
    (h : (ofSource source').Emits limit ask source words text) :
    ∀ w ∈ words, Token.IsWhole w :=
  fun w hw => (isWritable_ofSource source').isWhole_of_hasWord (h.hasWord w hw).2

/-- A sentence of a grammar that has been read falls at its blanks into the words that the
derivation emitted and an empty piece.  None of the words holds a blank or a carriage return with a
line feed, none is bracketed, and each is the start symbol or a symbol of a body of a reachable
head.  So two derivations return one text just when they emit the same words. -/
theorem cut_of_generate (source : String) :
    (∀ (σ : Type) (limit : Option Int) (ask : Nat → σ → Int × σ) (fuel : Nat) (state rest : σ)
        (text : String),
      generate (ofSource source).table limit ask fuel (ofSource source).start? state =
          some (.ok text, rest) →
        ∃ words, (ofSource source).Emits limit ask state words text ∧
          Token.cut text = words ++ [""] ∧
          ∀ w ∈ words, Token.IsWhole w ∧ (⟨w⟩ : Symbol).isPlain = true ∧
            (ofSource source).HasWord w) ∧
      ∀ (σ τ : Type) (limit limit' : Option Int) (ask : Nat → σ → Int × σ)
        (ask' : Nat → τ → Int × τ) (state : σ) (state' : τ) (words words' : List String)
        (text text' : String),
        (ofSource source).Emits limit ask state words text →
        (ofSource source).Emits limit' ask' state' words' text' →
          (text = text' ↔ words = words') := by
  constructor
  · intro σ limit ask fuel state rest text h
    obtain ⟨words, hwords⟩ := exists_emits h
    have hwhole := hwords.isWhole
    refine ⟨words, hwords, ?_, fun w hw => ⟨hwhole w hw, hwords.hasWord w hw⟩⟩
    rw [hwords.eq_sentence]
    exact cut_sentence fun w hw => (hwhole w hw).1
  · intro σ τ limit limit' ask ask' state state' words words' text text' h h'
    rw [h.eq_sentence, h'.eq_sentence]
    exact sentence_inj (fun w hw => (h.isWhole w hw).1) (fun w hw => (h'.isWhole w hw).1)

/-- Words that are empty, break the line, or have one of the brackets. -/
def oddWords : String := "\x7b <S> a  \\n <B> ; \x7d \x7b <B> ; < ; \x7d"

theorem cut_oddWords :
    generate (ofSource oddWords).table (some 2) (fun count s => ((count : Int) - 1, s)) 9
        (ofSource oddWords).start? () = some (.ok "a  \n < ", ()) ∧
      Token.cut "a  \n < " = ["a", "", "\n", "<"] ++ [""] ∧
      ∀ w ∈ ["a", "", "\n", "<"], Token.IsWhole w ∧ (⟨w⟩ : Symbol).isPlain = true ∧
        (ofSource oddWords).HasWord w := by
  have hrun : generate (ofSource oddWords).table (some 2) (fun count s => ((count : Int) - 1, s)) 9
      (ofSource oddWords).start? () = some (.ok "a  \n < ", ()) := by rfl
  have hpieces : Token.cut "a  \n < " = ["a", "", "\n", "<"] ++ [""] := by decide
  obtain ⟨words, -, hcut, hwords⟩ := (cut_of_generate oddWords).1 _ _ _ _ _ _ _ hrun
  obtain rfl : words = ["a", "", "\n", "<"] := List.append_cancel_right (hcut.symm.trans hpieces)
  exact ⟨hrun, hpieces, hwords⟩

end Grammar

end BraceGrammar
