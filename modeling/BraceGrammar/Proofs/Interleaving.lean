import BraceGrammar.Choice.Source
import BraceGrammar.Proofs.SentenceStream
import BraceGrammar.SentenceStream.Interleaving

/-!
# Interleaved streams are one sequence

However streams that share a source are made and asked, the results that they yield are those of
derivations in sequence on the source, and the source is left where the sequence leaves it.  No
result is lost or comes twice, and a stream that is over asks the source nothing.

The invariant of an interleaving is an account of every stream (`Accounts`): what is left of it is
what its items have left of its count.  One call keeps the account (`Accounts.make`,
`Accounts.next`).
-/

namespace BraceGrammar

namespace SentenceStream

open BraceGrammar.Derivation

variable {σ : Type} {g : Grammar} {limit : Option Int} {ask : Nat → σ → Int × σ}
  {source rest rest' : σ} {calls : List Call} {streams : List SentenceStream}
  {s s' : SentenceStream} {number i fuel : Nat} {item : Item} {count : Int}

/-! ## One call more -/

theorem countsOf_made (calls : List Call) (count : Int) :
    countsOf (calls ++ [.made count]) = countsOf calls ++ [count] := by
  simp [countsOf]

theorem countsOf_yielded (calls : List Call) (number : Nat) (item : Item) :
    countsOf (calls ++ [.yielded number item]) = countsOf calls := by
  simp [countsOf]

theorem itemsOf_made (calls : List Call) (count : Int) (i : Nat) :
    itemsOf i (calls ++ [.made count]) = itemsOf i calls := by
  simp [itemsOf]

theorem itemsOf_yielded_self (calls : List Call) (number : Nat) (item : Item) :
    itemsOf number (calls ++ [.yielded number item]) = itemsOf number calls ++ [item] := by
  simp [itemsOf]

theorem itemsOf_yielded_of_ne (h : number ≠ i) (calls : List Call) (item : Item) :
    itemsOf i (calls ++ [.yielded number item]) = itemsOf i calls := by
  simp [itemsOf, h]

theorem resultsOf_made (calls : List Call) (count : Int) :
    resultsOf (calls ++ [.made count]) = resultsOf calls := by
  simp [resultsOf]

theorem resultsOf_yielded_over (calls : List Call) (number : Nat) :
    resultsOf (calls ++ [.yielded number .over]) = resultsOf calls := by
  simp [resultsOf, Item.result?]

theorem resultsOf_yielded_ofResult (calls : List Call) (number : Nat)
    (result : Except Failure String) :
    resultsOf (calls ++ [.yielded number (.ofResult result)]) = resultsOf calls ++ [result] := by
  cases result <;> simp [resultsOf, Item.result?, Item.ofResult]

/-! ## One item more -/

variable {items : List Item} {texts : List String} {cause : Failure} {n : Nat}

theorem left_of_unfailing : left count (texts.map .sentence ++ List.replicate n .over) =
    count.toNat - (texts.length + n) := by
  have hnone :
      (texts.map Item.sentence ++ List.replicate n Item.over).any Item.isFailure = false := by
    rw [List.any_eq_false]
    intro item hmem
    obtain hmem | hmem := List.mem_append.1 hmem
    · obtain ⟨text, -, rfl⟩ := List.mem_map.1 hmem
      exact Bool.false_ne_true
    · rw [List.eq_of_mem_replicate hmem]
      exact Bool.false_ne_true
  rw [left, hnone]
  simp

theorem left_of_failing :
    left count (texts.map .sentence ++ .failure cause :: List.replicate n .over) = 0 := by
  simp [left, Item.isFailure]

theorem left_nil (count : Int) : left count [] = count.toNat := rfl

namespace Course

theorem nil (count : Int) : Course count [] := by
  apply @unfailing count [] 0
  · exact Nat.zero_le _
  · intro h
    exact absurd rfl h

/-- A stream that has a sentence left has yielded nothing but sentences. -/
theorem exists_texts (h : Course count items) (hleft : left count items ≠ 0) :
    ∃ texts : List String, items = texts.map .sentence ∧ texts.length < count.toNat := by
  cases h with
  | @unfailing texts n upTo enough =>
      rw [left_of_unfailing] at hleft
      by_cases hn : n = 0
      · subst hn
        exact ⟨texts, List.append_nil _, by omega⟩
      · have := enough hn
        omega
  | failing fewer => exact absurd left_of_failing hleft

theorem ended (h : Course count items) (hleft : left count items = 0) :
    Course count (items ++ [.over]) ∧ left count (items ++ [.over]) = 0 := by
  cases h with
  | @unfailing texts n upTo enough =>
      rw [left_of_unfailing] at hleft
      have hall : texts.length = count.toNat := by
        by_cases hn : n = 0
        · omega
        · exact enough hn
      rw [List.append_assoc, ← List.replicate_succ']
      exact ⟨.unfailing upTo fun _ => hall, by rw [left_of_unfailing]; omega⟩
  | failing fewer =>
      rw [List.append_assoc, List.cons_append, ← List.replicate_succ']
      exact ⟨.failing fewer, left_of_failing⟩

theorem sentence (h : Course count items) (hleft : left count items ≠ 0) (text : String) :
    Course count (items ++ [.sentence text]) ∧
      left count (items ++ [.sentence text]) = left count items - 1 := by
  obtain ⟨texts, rfl, hfewer⟩ := h.exists_texts hleft
  have hitems (texts : List String) : texts.map Item.sentence =
      texts.map .sentence ++ List.replicate 0 .over := (List.append_nil _).symm
  have hmore : texts.map Item.sentence ++ [.sentence text] = (texts ++ [text]).map .sentence := by
    simp
  rw [hmore, hitems, hitems texts, left_of_unfailing, left_of_unfailing, List.length_append]
  refine ⟨.unfailing ?_ fun h => absurd rfl h, ?_⟩
  · rw [List.length_append]
    exact hfewer
  · simp only [List.length_singleton]
    omega

theorem failure (h : Course count items) (hleft : left count items ≠ 0) (cause : Failure) :
    Course count (items ++ [.failure cause]) ∧ left count (items ++ [.failure cause]) = 0 := by
  obtain ⟨texts, rfl, hfewer⟩ := h.exists_texts hleft
  exact ⟨.failing (n := 0) hfewer, left_of_failing (n := 0)⟩

end Course

/-! ## The account of a stream -/

/-- What a stream of so many sentences has come to after it yielded some items. -/
structure Account (g : Grammar) (limit : Option Int) (count : Int) (items : List Item)
    (s : SentenceStream) : Prop where
  start : g.start? = some s.start
  limit : s.limit = limit
  course : Course count items
  remaining : s.remaining = left count items

namespace Account

theorem ofGrammar {displayed : Bool} (h : ofGrammar g count limit displayed = .ok s) :
    Account g limit count [] s := by
  obtain ⟨S, hstart, -, rfl⟩ := ofGrammar_eq_ok_iff.1 h
  exact ⟨hstart, rfl, .nil count, (left_nil count).symm⟩

/-- What a stream does when it is asked: nothing if nothing is left of it, else one derivation. -/
theorem next_eq (h : Account g limit count items s) (fuel : Nat) (source : σ) :
    s.next g.table ask fuel source =
      if left count items = 0 then some (.over, s, source)
      else (generate g.table limit ask fuel g.start? source).map fun (result, rest) =>
        (.ofResult result, s.after result, rest) := by
  split
  · next hleft => exact next_of_remaining_eq_zero _ _ _ (h.remaining.trans hleft) source
  · next hleft =>
      rw [next_eq_map_generate _ _ _ (h.remaining ▸ hleft), h.limit, h.start]

/-- A stream that yields an item either had nothing left and leaves the source alone, or the item is
the result of the next derivation. -/
theorem next_cases (h : Account g limit count items s)
    (asked : s.next g.table ask fuel rest = some (item, s', rest')) :
    left count items = 0 ∧ item = .over ∧ s' = s ∧ rest' = rest ∨
      left count items ≠ 0 ∧ ∃ result, item = .ofResult result ∧ s' = s.after result ∧
        generate g.table limit ask fuel g.start? rest = some (result, rest') := by
  rw [h.next_eq] at asked
  split at asked
  · next hleft =>
      cases asked
      exact .inl ⟨hleft, rfl, rfl, rfl⟩
  · next hleft =>
      obtain ⟨⟨result, rest'⟩, hresult, hitem⟩ := Option.map_eq_some_iff.1 asked
      cases hitem
      exact .inr ⟨hleft, result, rfl, rfl, hresult⟩

theorem next (h : Account g limit count items s)
    (asked : s.next g.table ask fuel rest = some (item, s', rest')) :
    Account g limit count (items ++ [item]) s' := by
  obtain ⟨hleft, rfl, rfl, -⟩ | ⟨hleft, result, rfl, rfl, -⟩ := h.next_cases asked
  · obtain ⟨hcourse, hleft'⟩ := h.course.ended hleft
    exact ⟨h.start, h.limit, hcourse, by rw [h.remaining, hleft, hleft']⟩
  · cases result with
    | ok text =>
        obtain ⟨hcourse, hleft'⟩ := h.course.sentence hleft text
        refine ⟨h.start, h.limit, hcourse, ?_⟩
        show s.remaining - 1 = left count (items ++ [.sentence text])
        rw [hleft', h.remaining]
    | error cause =>
        obtain ⟨hcourse, hleft'⟩ := h.course.failure hleft cause
        exact ⟨h.start, h.limit, hcourse, hleft'.symm⟩

end Account

/-! ## The account of an interleaving -/

/-- There is an account of each stream, and nothing was yielded under the number of a stream that is
still to be made. -/
structure Accounts (g : Grammar) (limit : Option Int) (calls : List Call)
    (streams : List SentenceStream) : Prop where
  length : streams.length = (countsOf calls).length
  later : ∀ {i}, streams.length ≤ i → itemsOf i calls = []
  account : ∀ {i s count}, streams[i]? = some s → (countsOf calls)[i]? = some count →
    Account g limit count (itemsOf i calls) s

namespace Accounts

theorem nil : Accounts g limit [] [] where
  length := rfl
  later _ := rfl
  account h := by simp at h

theorem make {displayed : Bool} (h : Accounts g limit calls streams)
    (made : ofGrammar g count limit displayed = .ok s) :
    Accounts g limit (calls ++ [.made count]) (streams ++ [s]) where
  length := by
    rw [countsOf_made, List.length_append, List.length_append, h.length]
    rfl
  later {i} hi := by
    rw [itemsOf_made]
    apply h.later
    rw [List.length_append] at hi
    omega
  account {i t n} ht hn := by
    rw [countsOf_made] at hn
    rw [itemsOf_made]
    by_cases hi : i < streams.length
    · rw [List.getElem?_append_left hi] at ht
      rw [List.getElem?_append_left (h.length ▸ hi)] at hn
      exact h.account ht hn
    · rw [List.getElem?_append_right (Nat.le_of_not_lt hi)] at ht
      rw [List.getElem?_append_right (h.length ▸ Nat.le_of_not_lt hi), ← h.length] at hn
      have hzero : i - streams.length = 0 := by
        have := List.getElem?_eq_some_iff.1 ht |>.1
        simpa using this
      rw [hzero] at ht hn
      cases ht
      cases hn
      rw [h.later (Nat.le_of_not_lt hi)]
      exact .ofGrammar made

theorem next (h : Accounts g limit calls streams) (found : streams[number]? = some s)
    (asked : s.next g.table ask fuel rest = some (item, s', rest')) :
    Accounts g limit (calls ++ [.yielded number item]) (streams.set number s') where
  length := by rw [countsOf_yielded, List.length_set, h.length]
  later {i} hi := by
    rw [List.length_set] at hi
    have hnumber : number < streams.length := (List.getElem?_eq_some_iff.1 found).1
    rw [itemsOf_yielded_of_ne (by omega)]
    exact h.later hi
  account {i t n} ht hn := by
    rw [countsOf_yielded] at hn
    by_cases hi : number = i
    · subst hi
      have hnumber : number < streams.length := (List.getElem?_eq_some_iff.1 found).1
      rw [List.getElem?_set_self hnumber] at ht
      cases ht
      rw [itemsOf_yielded_self]
      exact (h.account found hn).next asked
    · rw [List.getElem?_set_ne hi] at ht
      rw [itemsOf_yielded_of_ne hi]
      exact h.account ht hn

end Accounts

namespace Interleaving

theorem accounts (h : Interleaving g limit ask source calls streams rest) :
    Accounts g limit calls streams := by
  induction h with
  | start => exact .nil
  | make _ made ih => exact ih.make made
  | next _ found asked ih => exact ih.next found asked

/-- The results that are yielded in an interleaving are those of one sequence. -/
theorem exists_generateEach (h : Interleaving g limit ask source calls streams rest) :
    ∃ fuel, generateEach g.table limit ask fuel g.start? (resultsOf calls).length source =
      some (resultsOf calls, rest) := by
  induction h with
  | start => exact ⟨0, rfl⟩
  | make _ _ ih =>
      rw [resultsOf_made]
      exact ih
  | @next calls streams rest rest' s s' number fuel item before found asked ih =>
      have hnumber : number < (countsOf calls).length :=
        before.accounts.length ▸ (List.getElem?_eq_some_iff.1 found).1
      have haccount := before.accounts.account found (List.getElem?_eq_getElem hnumber)
      obtain ⟨-, rfl, -, rfl⟩ | ⟨-, result, rfl, -, hresult⟩ := haccount.next_cases asked
      · rw [resultsOf_yielded_over]
        exact ih
      · obtain ⟨fuel', hbefore⟩ := ih
        rw [resultsOf_yielded_ofResult, List.length_append]
        exact ⟨max fuel' fuel, generateEach_concat_iff.2
          ⟨rest, generateEach_of_le (Nat.le_max_left ..) hbefore,
            generate_of_le (Nat.le_max_right ..) hresult⟩⟩

end Interleaving

/-! ## Interleaved streams and one sequence -/

/-- Streams from one grammar that share a source, whatever their counts and in whatever order they
are made and asked.  The results that they yield are those of one sequence of derivations, which
leaves the source as they do.  Every stream keeps its course; if nothing is left of it, asking it
leaves the source alone, and else it yields the result of the next derivation of the sequence.

Hence a stream of fewer sentences yields the first ones of a longer stream on an equal source, and
does not fail before the longer one. -/
theorem interleaving_eq_sequence (g : Grammar) (limit : Option Int) (ask : Nat → σ → Int × σ)
    (source : σ) :
    (∀ calls streams rest, Interleaving g limit ask source calls streams rest →
      (∃ fuel, generateEach g.table limit ask fuel g.start? (resultsOf calls).length source =
        some (resultsOf calls, rest)) ∧
      streams.length = (countsOf calls).length ∧
      ∀ i s count, streams[i]? = some s → (countsOf calls)[i]? = some count →
        Course count (itemsOf i calls) ∧
        ∀ fuel, s.next g.table ask fuel rest =
          if left count (itemsOf i calls) = 0 then some (.over, s, rest)
          else (generate g.table limit ask fuel g.start? rest).map fun (result, rest') =>
            (.ofResult result, s.after result, rest')) ∧
    ∀ n m displayed displayed' s t fuel texts failure? rest, n ≤ m →
      ofGrammar g n limit displayed = .ok s → ofGrammar g m limit displayed' = .ok t →
      t.toList g.table ask fuel source = some (texts, failure?, rest) →
      ∃ rest', s.toList g.table ask fuel source =
        some (texts.take n.toNat, if n.toNat ≤ texts.length then none else failure?, rest') := by
  refine ⟨?_, ?_⟩
  · intro calls streams rest h
    refine ⟨h.exists_generateEach, h.accounts.length, ?_⟩
    intro i s count hs hcount
    have haccount := h.accounts.account hs hcount
    exact ⟨haccount.course, fun fuel => haccount.next_eq fuel rest⟩
  · intro n m displayed displayed' s t fuel texts failure? rest hle hs ht hlist
    obtain ⟨S, hstart, -, rfl⟩ := ofGrammar_eq_ok_iff.1 hs
    obtain ⟨S', hstart', -, rfl⟩ := ofGrammar_eq_ok_iff.1 ht
    obtain rfl : S = S' := Option.some.inj (hstart.symm.trans hstart')
    exact exists_toList_of_le (Int.toNat_le_toNat hle) hlist

/-- A word, or a symbol without an entry. -/
def wordOrLost : Grammar where
  table := .ofList [(⟨"<S>"⟩, [[⟨"a"⟩], [⟨"<U>"⟩]])]
  start? := some ⟨"<S>"⟩

/-- A stream that has so many sentences of that left. -/
def ofWords (remaining : Nat) : SentenceStream := ⟨⟨"<S>"⟩, none, remaining⟩

/-- Of two streams the second fails between the two sentences of the first. -/
def failingBetween : List Call := [.made 2, .made 3, .yielded 0 (.sentence "a "),
  .yielded 1 (.failure (.undefined ⟨"<U>"⟩)), .yielded 1 .over, .yielded 0 (.sentence "a "),
  .yielded 0 .over]

theorem failingBetween_eq_sequence :
    Interleaving wordOrLost none Choice.Source.ask (.sequence [0, 1, 0] 1) failingBetween
      [ofWords 0, ofWords 0] (.sequence [] 1) ∧
    (∃ fuel, generateEach wordOrLost.table none Choice.Source.ask fuel wordOrLost.start? 3
      (Choice.Source.sequence [0, 1, 0] 1) =
        some ([.ok "a ", .error (.undefined ⟨"<U>"⟩), .ok "a "], .sequence [] 1)) ∧
    Course 3 [.failure (.undefined ⟨"<U>"⟩), .over] ∧
    ∃ rest, (ofWords 1).toList wordOrLost.table Choice.Source.ask 3 (.sequence [0, 1, 0] 1) =
      some (["a "], none, rest) := by
  have made : Interleaving wordOrLost none Choice.Source.ask (.sequence [0, 1, 0] 1)
      [.made 2, .made 3] [ofWords 2, ofWords 3] (.sequence [0, 1, 0] 1) := by
    have first : ofGrammar wordOrLost 2 none true = .ok (ofWords 2) := rfl
    have second : ofGrammar wordOrLost 3 none false = .ok (ofWords 3) := rfl
    exact (Interleaving.start.make first).make second
  have asked : Interleaving wordOrLost none Choice.Source.ask (.sequence [0, 1, 0] 1)
      [.made 2, .made 3, .yielded 0 (.sentence "a "), .yielded 1 (.failure (.undefined ⟨"<U>"⟩))]
      [ofWords 1, ofWords 0] (.sequence [0] 1) := by
    have first : (ofWords 2).next wordOrLost.table Choice.Source.ask 3 (.sequence [0, 1, 0] 1) =
        some (.sentence "a ", ofWords 1, .sequence [1, 0] 1) := rfl
    have second : (ofWords 3).next wordOrLost.table Choice.Source.ask 3 (.sequence [1, 0] 1) =
        some (.failure (.undefined ⟨"<U>"⟩), ofWords 0, .sequence [0] 1) := rfl
    exact (made.next (show [ofWords 2, ofWords 3][0]? = some (ofWords 2) from rfl) first).next
      (show [ofWords 1, ofWords 3][1]? = some (ofWords 3) from rfl) second
  have h : Interleaving wordOrLost none Choice.Source.ask (.sequence [0, 1, 0] 1) failingBetween
      [ofWords 0, ofWords 0] (.sequence [] 1) := by
    have hover (source : Choice.Source) : (ofWords 0).next wordOrLost.table Choice.Source.ask 0
        source = some (.over, ofWords 0, source) := rfl
    have third : (ofWords 1).next wordOrLost.table Choice.Source.ask 3 (.sequence [0] 1) =
        some (.sentence "a ", ofWords 0, .sequence [] 1) := rfl
    exact ((asked.next (show [ofWords 1, ofWords 0][1]? = some (ofWords 0) from rfl) (hover _)).next
      (show [ofWords 1, ofWords 0][0]? = some (ofWords 1) from rfl) third).next
      (show [ofWords 0, ofWords 0][0]? = some (ofWords 0) from rfl) (hover _)
  obtain ⟨hinterleaved, hfewer⟩ :=
    interleaving_eq_sequence wordOrLost none Choice.Source.ask (.sequence [0, 1, 0] 1)
  obtain ⟨hsequence, -, haccount⟩ := hinterleaved _ _ _ h
  have hlist : (ofWords 3).toList wordOrLost.table Choice.Source.ask 3 (.sequence [0, 1, 0] 1) =
      some (["a "], some (.undefined ⟨"<U>"⟩), .sequence [0] 1) := rfl
  exact ⟨h, hsequence, (haccount 1 _ _ rfl rfl).1,
    hfewer 1 3 true false _ _ 3 _ _ _ (by decide) rfl rfl hlist⟩

end SentenceStream

end BraceGrammar
