import BraceGrammar.Choice.Source
import BraceGrammar.Derivation.Forest
import BraceGrammar.Proofs.Run
import Mathlib.Data.List.Forall2

/-!
# Derivations without a limit are forests

A derivation without a limit that ends with a sentence has gone through a forest of what was pending,
and every forest is gone through when the source answers its indices (`ends_iff_forest`).  The source
is asked the forest's counts, in their order, and nothing else.

The indices of a forest decide it, and where they end (`Forest.answers_append_inj`).  So the lists of
answers that a derivation uses up are just the index lists of the derivation trees of its start
symbol, one tree for each list.
-/

namespace BraceGrammar

namespace Derivation

variable {σ : Type} {T : Table}

/-! ## Questions in turn -/

section Questions

variable (ask : Nat → σ → Int × σ)

/-- The answers to several questions in turn. -/
def askEach : List Nat → σ → List Int × σ
  | [], source => ([], source)
  | count :: counts, source =>
    let (answer, source) := ask count source
    let (answers, source) := askEach counts source
    (answer :: answers, source)

theorem askEach_cons (count : Nat) (counts : List Nat) (source : σ) :
    askEach ask (count :: counts) source =
      ((ask count source).1 :: (askEach ask counts (ask count source).2).1,
        (askEach ask counts (ask count source).2).2) := rfl

theorem askEach_append (xs ys : List Nat) (source : σ) :
    askEach ask (xs ++ ys) source =
      ((askEach ask xs source).1 ++ (askEach ask ys (askEach ask xs source).2).1,
        (askEach ask ys (askEach ask xs source).2).2) := by
  induction xs generalizing source with
  | nil => rfl
  | cons count xs ih => rw [List.cons_append, askEach_cons, ih, askEach_cons, List.cons_append]

theorem length_askEach (counts : List Nat) (source : σ) :
    (askEach ask counts source).1.length = counts.length := by
  induction counts generalizing source with
  | nil => rfl
  | cons count counts ih => rw [askEach_cons, List.length_cons, ih, List.length_cons]

/-- Keeping the questions changes no answer. -/
theorem askEach_recording (counts asked : List Nat) (source : σ) :
    askEach (recording ask) counts (source, asked) =
      ((askEach ask counts source).1, (askEach ask counts source).2, counts.reverse ++ asked) := by
  induction counts generalizing source asked with
  | nil => rfl
  | cons count counts ih =>
      rw [askEach_cons, askEach_cons, recording, ih, List.reverse_cons, List.append_assoc,
        List.singleton_append]

/-- A source whose states are lists of answers to come gives these in order. -/
theorem askEach_queue (queue : List Int → σ)
    (hask : ∀ count answer answers, ask count (queue (answer :: answers)) = (answer, queue answers))
    {counts : List Nat} {answers : List Int} (h : answers.length = counts.length) :
    askEach ask counts (queue answers) = (answers, queue []) := by
  induction counts generalizing answers with
  | nil =>
      obtain rfl := List.length_eq_zero_iff.1 h
      rfl
  | cons count counts ih =>
      obtain _ | ⟨answer, answers⟩ := answers
      · cases h
      · rw [List.length_cons, List.length_cons, Nat.add_right_cancel_iff] at h
        rw [askEach_cons, hask, ih h]

end Questions

/-- An answer is an index of one of so many bodies. -/
def IsIndex (answer : Int) (count : Nat) : Prop := 0 ≤ answer ∧ answer < count

namespace Forest

/-! ## Forests side by side -/

/-- The indices of the bodies, as a source answers them. -/
def answers {Xs : List Symbol} (f : Forest T Xs) : List Int := f.choices.map Nat.cast

/-- How often a bracketed symbol is expanded. -/
def expansions : {Xs : List Symbol} → Forest T Xs → Nat
  | _, .nil => 0
  | _, .plain _ others => others.expansions
  | _, .childless _ _ others => others.expansions + 1
  | _, .node _ _ _ children others => children.expansions + others.expansions + 1

theorem answers_node {X : Symbol} {rest : List Symbol} {bodies : List Body}
    (isBracketed : X.isBracketed) (found : T.bodies? X = some bodies) (index : Fin bodies.length)
    (children : Forest T (bodies.get index)) (others : Forest T rest) :
    (node isBracketed found index children others).answers =
      (index.val : Int) :: (children.answers ++ others.answers) := by
  rw [answers, choices, List.map_cons, List.map_append]
  rfl

theorem length_answers {Xs : List Symbol} (f : Forest T Xs) :
    f.answers.length = f.counts.length := by
  rw [answers, List.length_map, length_counts]

/-- Two forests side by side. -/
def append {Ys : List Symbol} : {Xs : List Symbol} → Forest T Xs → Forest T Ys → Forest T (Xs ++ Ys)
  | _, .nil, g => g
  | _, .plain isPlain others, g => .plain isPlain (others.append g)
  | _, .childless isBracketed noBodies others, g =>
    .childless isBracketed noBodies (others.append g)
  | _, .node isBracketed found index children others, g =>
    .node isBracketed found index children (others.append g)

/-- A forest of two lists, one after the other, is a forest of each. -/
theorem exists_append {Xs Ys : List Symbol} (f : Forest T (Xs ++ Ys)) :
    ∃ (g : Forest T Xs) (h : Forest T Ys), f.words = g.words ++ h.words ∧
      f.answers = g.answers ++ h.answers ∧ f.counts = g.counts ++ h.counts ∧
      f.expansions = g.expansions + h.expansions := by
  induction Xs with
  | nil => exact ⟨.nil, f, rfl, rfl, rfl, (Nat.zero_add _).symm⟩
  | cons X Xs ih =>
      change Forest T (X :: (Xs ++ Ys)) at f
      cases f with
      | plain isPlain others =>
          obtain ⟨g, h, hwords, hanswers, hcounts, hexpansions⟩ := ih others
          refine ⟨.plain isPlain g, h, ?_, hanswers, hcounts, hexpansions⟩
          rw [words, words, hwords, List.cons_append]
      | childless isBracketed noBodies others =>
          obtain ⟨g, h, hwords, hanswers, hcounts, hexpansions⟩ := ih others
          refine ⟨.childless isBracketed noBodies g, h, hwords, hanswers, hcounts, ?_⟩
          rw [expansions, expansions, hexpansions, Nat.add_right_comm]
      | node isBracketed found index children others =>
          obtain ⟨g, h, hwords, hanswers, hcounts, hexpansions⟩ := ih others
          refine ⟨.node isBracketed found index children g, h, ?_, ?_, ?_, ?_⟩
          · rw [words, words, hwords, List.append_assoc]
          · rw [answers_node, answers_node, hanswers, List.cons_append, List.append_assoc]
          · rw [counts, counts, hcounts, List.cons_append, List.append_assoc]
          · rw [expansions, expansions, hexpansions]
            omega

/-- The answers are indices of the bodies that they choose among. -/
theorem forall₂_isIndex {Xs : List Symbol} (f : Forest T Xs) :
    List.Forall₂ IsIndex f.answers f.counts := by
  induction f with
  | nil => exact .nil
  | plain _ _ ih => exact ih
  | childless _ _ _ ih => exact ih
  | node _ _ index _ _ ihc iho =>
      rw [answers_node, counts]
      refine .cons ⟨Int.natCast_nonneg _, ?_⟩ (List.rel_append ihc iho)
      exact Int.ofNat_lt.2 index.isLt

/-! ## Forests from their indices -/

/-- The indices of a forest decide it, and where they end. -/
theorem answers_append_inj {Xs : List Symbol} {f g : Forest T Xs} {xs ys : List Int}
    (h : f.answers ++ xs = g.answers ++ ys) : f = g ∧ xs = ys := by
  induction f generalizing xs ys with
  | nil =>
      cases g
      exact ⟨rfl, h⟩
  | plain isPlain others ih =>
      cases g with
      | plain _ others' =>
          obtain ⟨rfl, hxs⟩ := ih (g := others') h
          exact ⟨rfl, hxs⟩
      | childless isBracketed _ _ => simp [isPlain_eq_false isBracketed] at isPlain
      | node isBracketed _ _ _ _ => simp [isPlain_eq_false isBracketed] at isPlain
  | childless isBracketed noBodies others ih =>
      cases g with
      | plain isPlain _ => simp [isPlain_eq_false isBracketed] at isPlain
      | childless _ _ others' =>
          obtain ⟨rfl, hxs⟩ := ih (g := others') h
          exact ⟨rfl, hxs⟩
      | node _ found index _ _ =>
          rw [noBodies, Option.some.injEq] at found
          subst found
          exact index.elim0
  | node isBracketed found index children others ihc iho =>
      cases g with
      | plain isPlain _ => simp [isPlain_eq_false isBracketed] at isPlain
      | childless _ noBodies _ =>
          rw [found, Option.some.injEq] at noBodies
          subst noBodies
          exact index.elim0
      | node _ found' index' children' others' =>
          have hbodies := found.symm.trans found'
          rw [Option.some.injEq] at hbodies
          subst hbodies
          rw [answers_node, answers_node, List.cons_append, List.cons_append, List.cons.injEq,
            List.append_assoc, List.append_assoc] at h
          obtain ⟨hindex, hrest⟩ := h
          obtain rfl : index = index' := Fin.ext (Int.ofNat.inj hindex)
          obtain ⟨rfl, hothers⟩ := ihc hrest
          obtain ⟨rfl, hxs⟩ := iho hothers
          exact ⟨rfl, hxs⟩

end Forest

/-! ## Runs through forests -/

section Runs

variable {ask : Nat → σ → Int × σ}

/-- A derivation whose source answers the indices of a forest goes through it, whatever is pending
behind it. -/
theorem leads_of_forest {Xs : List Symbol} (f : Forest T Xs) {source source' : σ}
    (h : askEach ask f.counts source = (f.answers, source')) (pending : List Symbol)
    (words : List String) (n : Nat) :
    Leads T none ask ⟨Xs ++ pending, words, n, source⟩
      ⟨pending, f.words.reverse ++ words, n + f.expansions, source'⟩ := by
  induction f generalizing source source' pending words n with
  | nil =>
      obtain rfl := congrArg Prod.snd h
      exact .refl _
  | @plain X rest isPlain others ih =>
      have hreplace : replace T none ask X n source = .becomes [X.text] [] n source :=
        replace_plain isPlain
      have hfirst := leads_of_becomes hreplace (rest ++ pending) words
      have hothers := ih h pending ([X.text].reverse ++ words) n
      rw [Forest.words, List.reverse_cons, List.append_assoc]
      exact hfirst.trans hothers
  | @childless X rest isBracketed noBodies others ih =>
      have hreplace : replace T none ask X n source = .becomes [] [] (n + 1) source :=
        replace_childless isBracketed noBodies rfl
      have hfirst := leads_of_becomes hreplace (rest ++ pending) words
      have hothers := ih h pending words (n + 1)
      rw [Forest.words, Forest.expansions, ← Nat.add_assoc, Nat.add_right_comm]
      exact hfirst.trans hothers
  | @node X rest bodies isBracketed found index children others ihc iho =>
      rw [Forest.counts, askEach_cons, askEach_append, Forest.answers_node, Prod.mk.injEq,
        List.cons.injEq] at h
      obtain ⟨⟨hindex, hanswers⟩, rfl⟩ := h
      obtain ⟨hchildren, hothers⟩ := List.append_inj hanswers
        (by rw [length_askEach, Forest.length_answers])
      have hreplace : replace T none ask X n source =
          .becomes [] (bodies.get index) (n + 1) (ask bodies.length source).2 :=
        replace_node isBracketed found rfl index (Prod.ext hindex rfl)
      have hfirst := leads_of_becomes hreplace (rest ++ pending) words
      have hsecond := ihc (Prod.ext hchildren rfl) (rest ++ pending) words (n + 1)
      have hthird := iho (Prod.ext hothers rfl) pending (children.words.reverse ++ words)
        (n + 1 + children.expansions)
      have hwords : (children.words ++ others.words).reverse ++ words =
          others.words.reverse ++ (children.words.reverse ++ words) := by
        rw [List.reverse_append, List.append_assoc]
      have hexpansions : n + (children.expansions + others.expansions + 1) =
          n + 1 + children.expansions + others.expansions := by omega
      rw [Forest.words, Forest.expansions, hwords, hexpansions]
      exact (hfirst.trans hsecond).trans hthird

/-- A derivation that ends with a sentence has gone through a forest of what was pending. -/
theorem exists_forest_of_ends {s : State σ} {e : Ending σ} (h : Ends T none ask s e)
    {ws : List String} (hws : e.result = .ok ws) :
    ∃ f : Forest T s.pending, askEach ask f.counts s.source = (f.answers, e.source) ∧
      ws = s.words.reverse ++ f.words ∧ e.expansions = s.expansions + f.expansions := by
  induction h using Ends.induct_pending with
  | nil words n source =>
      cases hws
      exact ⟨.nil, rfl, (List.append_nil _).symm, rfl⟩
  | fails => cases hws
  | becomes X pending words n source ws' symbols n' source' e hbecomes _ ih =>
      obtain ⟨f, hask, hwords, hexpansions⟩ := ih hws
      rcases replace_becomes_cases hbecomes with
        ⟨hX, rfl, rfl, rfl, rfl⟩ | ⟨hX, rfl, rfl, -, hentry⟩
      · refine ⟨.plain hX f, hask, ?_, hexpansions⟩
        rw [hwords, Forest.words]
        simp
      · rcases hentry with ⟨hfind, rfl, rfl⟩ | ⟨bodies, index, hfind, rfl, hindex⟩
        · refine ⟨.childless hX hfind f, hask, hwords, ?_⟩
          rw [hexpansions, Forest.expansions]
          dsimp only
          omega
        · obtain ⟨children, others, hw, ha, hc, hx⟩ := f.exists_append
          refine ⟨.node hX hfind index children others, ?_, ?_, ?_⟩
          · rw [Forest.counts, ← hc, askEach_cons, hindex, hask, Forest.answers_node, ha]
          · rw [hwords, hw]
            rfl
          · rw [hexpansions, hx, Forest.expansions]
            dsimp only
            omega

/-- The derivations without a limit that end with a sentence are the forests of what was pending, for
any source that answers their indices to their counts. -/
theorem ends_iff_forest {pending : List Symbol} {words ws : List String} {n n' : Nat}
    {source source' : σ} :
    Ends T none ask ⟨pending, words, n, source⟩ ⟨.ok ws, n', source'⟩ ↔
      ∃ f : Forest T pending, askEach ask f.counts source = (f.answers, source') ∧
        ws = words.reverse ++ f.words ∧ n' = n + f.expansions := by
  constructor
  · intro h
    exact exists_forest_of_ends h rfl
  · rintro ⟨f, hask, rfl, rfl⟩
    have hleads := leads_of_forest f hask [] words n
    rw [List.append_nil] at hleads
    refine hleads.ends (.last ?_)
    rw [step_nil, List.reverse_append, List.reverse_reverse]

end Runs

/-! ## Lists of answers -/

/-- A source that gives the answers of a list, in order, and then one that is no index. -/
def answering (_ : Nat) : List Int → Int × List Int
  | [] => (-1, [])
  | answer :: answers => (answer, answers)

theorem askEach_answering {counts : List Nat} {answers : List Int}
    (h : answers.length = counts.length) : askEach answering counts answers = (answers, []) :=
  askEach_queue answering id (fun _ _ _ => rfl) h

/-- Answers that are no negative numbers have come from the list. -/
theorem eq_append_of_askEach_answering {counts : List Nat} {given answers rest : List Int}
    (hpos : ∀ a ∈ answers, 0 ≤ a) (h : askEach answering counts given = (answers, rest)) :
    given = answers ++ rest := by
  induction counts generalizing given answers with
  | nil =>
      obtain ⟨rfl, rfl⟩ := Prod.mk.inj h
      rfl
  | cons count counts ih =>
      rw [askEach_cons] at h
      obtain ⟨rfl, hrest⟩ := Prod.mk.inj h
      obtain ⟨hfirst, hothers⟩ := List.forall_mem_cons.1 hpos
      obtain _ | ⟨answer, given⟩ := given
      · change (0 : Int) ≤ -1 at hfirst
        exact absurd hfirst (by decide)
      · rw [List.cons_append, List.cons.injEq]
        exact ⟨rfl, ih hothers (Prod.ext rfl hrest)⟩

theorem askEach_sequence {counts : List Nat} {answers : List Int}
    (h : answers.length = counts.length) (last : Int) :
    askEach Choice.Source.ask counts (.sequence answers last) = (answers, .sequence [] last) :=
  askEach_queue Choice.Source.ask (.sequence · last) (fun _ _ _ => rfl) h

/-- The questions to the list of a forest's answers are its counts. -/
theorem Forest.askEach_recording_answers {Xs : List Symbol} (f : Forest T Xs) :
    askEach (recording answering) f.counts (f.answers, []) =
      (f.answers, [], f.counts.reverse) := by
  rw [askEach_recording, askEach_answering f.length_answers, List.append_nil]

theorem Forest.nonneg_of_mem_answers {Xs : List Symbol} (f : Forest T Xs) :
    ∀ a ∈ f.answers, 0 ≤ a := by
  intro a ha
  obtain ⟨i, -, rfl⟩ := List.mem_map.1 ha
  exact Int.natCast_nonneg i

/-! ## Sentences -/

section Sentences

variable {ask : Nat → σ → Int × σ} {S : Symbol}

/-- The sentences without a limit are those of the derivation trees of the start symbol. -/
theorem exists_generate_iff_forest {source source' : σ} {text : String} :
    (∃ fuel, generate T none ask fuel (some S) source = some (.ok text, source')) ↔
      ∃ f : Forest T [S], askEach ask f.counts source = (f.answers, source') ∧
        text = sentence f.words := by
  rw [exists_generate_iff]
  constructor
  · rintro ⟨⟨failure | ws, n, source''⟩, he, hanswer⟩
    · cases hanswer
    · obtain ⟨htext, rfl⟩ := Prod.mk.inj hanswer
      obtain ⟨f, hask, rfl, -⟩ := ends_iff_forest.1 he
      exact ⟨f, hask, (Except.ok.inj htext).symm⟩
  · rintro ⟨f, hask, rfl⟩
    exact ⟨⟨.ok f.words, f.expansions, source'⟩,
      ends_iff_forest.2 ⟨f, hask, rfl, (Nat.zero_add _).symm⟩, rfl⟩

variable (T S) in
/-- A derivation without a limit uses up the answers, to the last one, for a sentence. -/
def IsUsedUp (answers : List Int) : Prop :=
  ∃ fuel text, generate T none answering fuel (some S) answers = some (.ok text, [])

theorem isUsedUp_iff {answers : List Int} :
    IsUsedUp T S answers ↔ ∃ f : Forest T [S], f.answers = answers := by
  constructor
  · rintro ⟨fuel, text, h⟩
    obtain ⟨f, hask, -⟩ := exists_generate_iff_forest.1 ⟨fuel, h⟩
    refine ⟨f, ?_⟩
    rw [eq_append_of_askEach_answering f.nonneg_of_mem_answers hask, List.append_nil]
  · rintro ⟨f, rfl⟩
    have hask := askEach_answering f.length_answers
    obtain ⟨fuel, h⟩ := exists_generate_iff_forest.2 ⟨f, hask, rfl⟩
    exact ⟨fuel, _, h⟩

variable (T S) in
/-- Derivation trees and the lists of answers that are used up correspond to each other, one to one,
through the indices of a tree.  On its indices a derivation gives the words of the tree and is asked
its counts.  No such list is a proper beginning of another.  A sequence of a tree's indices, if it has
any, gives its words too. -/
theorem isUsedUp_answers_bijective :
    (∀ f : Forest T [S], IsUsedUp T S f.answers) ∧
    (∀ f g : Forest T [S], f.answers = g.answers → f = g) ∧
    (∀ answers, IsUsedUp T S answers → ∃ f : Forest T [S], f.answers = answers) ∧
    (∀ f : Forest T [S], ∃ fuel,
      generate T none (recording answering) fuel (some S) (f.answers, []) =
        some (.ok (sentence f.words), [], f.counts.reverse)) ∧
    (∀ xs ys, IsUsedUp T S xs → IsUsedUp T S ys → xs <+: ys → xs = ys) ∧
    ∀ f : Forest T [S], f.answers ≠ [] → ∃ source fuel source',
      Choice.Source.ofList f.answers = .ok source ∧
        generate T none Choice.Source.ask fuel (some S) source =
          some (.ok (sentence f.words), source') := by
  refine ⟨fun f => ?_, fun f g h => ?_, fun answers h => ?_, fun f => ?_, ?_, fun f hne => ?_⟩
  · exact isUsedUp_iff.2 ⟨f, rfl⟩
  · exact (Forest.answers_append_inj (congrArg (· ++ []) h)).1
  · exact isUsedUp_iff.1 h
  · refine exists_generate_iff_forest.2 ⟨f, ?_, rfl⟩
    rw [askEach_recording, askEach_answering f.length_answers, List.append_nil]
  · rintro xs ys hxs hys ⟨rest, hrest⟩
    obtain ⟨f, rfl⟩ := isUsedUp_iff.1 hxs
    obtain ⟨g, rfl⟩ := isUsedUp_iff.1 hys
    obtain ⟨rfl, -⟩ := Forest.answers_append_inj (hrest.trans (List.append_nil _).symm)
    rfl
  · obtain ⟨fuel, h⟩ := exists_generate_iff_forest.2
      ⟨f, askEach_sequence f.length_answers (f.answers.getLast hne), rfl⟩
    refine ⟨.sequence f.answers (f.answers.getLast hne), fuel, _, ?_, h⟩
    rw [Choice.Source.ofList, List.getLast?_eq_some_getLast hne]

/-- One `a`, with any number of `b` before it. -/
def anyBThenA : Table := .ofList [(⟨"<S>"⟩, [[⟨"a"⟩], [⟨"b"⟩, ⟨"<S>"⟩]])]

/-- The derivation tree of `b a`. -/
def treeOfBA : Forest anyBThenA [⟨"<S>"⟩] :=
  .node rfl rfl 1 (.plain rfl (.node rfl rfl 0 (.plain rfl .nil) .nil)) .nil

theorem isUsedUp_one_zero :
    IsUsedUp anyBThenA ⟨"<S>"⟩ [1, 0] ∧
      (∀ xs, IsUsedUp anyBThenA ⟨"<S>"⟩ xs → xs <+: [1, 0] → xs = [1, 0]) ∧
      ∃ fuel, generate anyBThenA none (recording answering) fuel (some ⟨"<S>"⟩) ([1, 0], []) =
        some (.ok "b a ", [], [2, 2]) := by
  obtain ⟨hused, -, -, htext, hprefix, -⟩ := isUsedUp_answers_bijective anyBThenA ⟨"<S>"⟩
  exact ⟨hused treeOfBA, fun xs hxs h => hprefix xs [1, 0] hxs (hused treeOfBA) h, htext treeOfBA⟩

end Sentences

end Derivation

end BraceGrammar
