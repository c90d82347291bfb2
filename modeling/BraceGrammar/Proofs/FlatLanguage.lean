import BraceGrammar.FlatGrammar.Language
import BraceGrammar.Proofs.Forest
import BraceGrammar.Proofs.OrderedMap

/-!
# The sentences of the flat form

Rewriting in the flat form goes in any order, a derivation goes from the left and needs a source.
Both come to the same forests, those in which every head has a body (`Forest.isFull`).

A full forest gives a rewriting: each of its nodes is one production (`derives_of_isFull`).  In the
other direction one rewriting step turns a symbol of a list into one of its bodies, so that a full
forest of the list after the step makes one of the list before it (`exists_body_of_rewrites`), and
with that a forest of the last form goes back to one of the first (`exists_isFull_of_derives`).

When all heads are bracketed, the bare name of a bracketed symbol stands for no other one
(`Symbol.eq_of_bareName_eq`).
-/

namespace BraceGrammar

/-! ## Names and items -/

namespace Symbol

variable {X Y : Symbol}

theorem toList_text_of_isBracketed (h : X.isBracketed = true) :
    X.text.toList = '<' :: (X.bareName.toList ++ ['>']) := by
  have hname : X.bareName = String.ofList X.text.toList.tail.dropLast := by
    rw [bareName, if_pos h]
  rw [hname, String.toList_ofList]
  unfold isBracketed at h
  cases htext : X.text.toList with
  | nil => simp [htext] at h
  | cons c rest =>
      simp only [htext, Bool.and_eq_true, beq_iff_eq, List.head?_cons, Option.some.injEq] at h
      obtain ⟨rfl, hlast⟩ := h
      rcases List.eq_nil_or_concat rest with rfl | ⟨inner, d, rfl⟩
      · simp at hlast
      · have hd : d = '>' := by simpa [List.getLast?_cons] using hlast
        simp [hd]

/-- Bracketed symbols with one bare name are one symbol. -/
theorem eq_of_bareName_eq (hX : X.isBracketed = true) (hY : Y.isBracketed = true)
    (h : X.bareName = Y.bareName) : X = Y := by
  have htext : X.text = Y.text := by
    apply String.toList_inj.1
    rw [toList_text_of_isBracketed hX, toList_text_of_isBracketed hY, h]
  cases X
  cases Y
  exact congrArg Symbol.mk htext

theorem item_of_isPlain (h : X.isPlain = true) : X.item = .terminal X.text := by
  have hX : X.isBracketed = false := by simpa [isPlain] using h
  simp [item, hX]

theorem item_of_isBracketed (h : X.isBracketed = true) : X.item = .nonterminal X.bareName := by
  rw [item, if_pos h]

theorem item_eq_terminal {text : String} (h : X.item = .terminal text) :
    X.isPlain = true ∧ X.text = text := by
  by_cases hX : X.isBracketed = true
  · simp [item_of_isBracketed hX] at h
  · have hplain : X.isPlain = true := by simpa [isPlain] using hX
    rw [item_of_isPlain hplain, FlatGrammar.Item.terminal.injEq] at h
    exact ⟨hplain, h⟩

theorem item_eq_nonterminal {name : String} (h : X.item = .nonterminal name) :
    X.isBracketed = true ∧ X.bareName = name := by
  by_cases hX : X.isBracketed = true
  · rw [item_of_isBracketed hX, FlatGrammar.Item.nonterminal.injEq] at h
    exact ⟨hX, h⟩
  · have hplain : X.isPlain = true := by simpa [isPlain] using hX
    simp [item_of_isPlain hplain] at h

end Symbol

/-- The productions are the bodies of the heads. -/
theorem Table.mem_productions_iff {T : Table} {p : FlatGrammar.Production} :
    p ∈ T.productions ↔ ∃ X bodies body, T.bodies? X = some bodies ∧ body ∈ bodies ∧
      p = ⟨X.bareName, body.map Symbol.item⟩ := by
  unfold Table.productions
  rw [List.mem_flatMap]
  constructor
  · rintro ⟨⟨X, bodies⟩, hentry, hp⟩
    obtain ⟨body, hbody, rfl⟩ := List.mem_map.1 hp
    exact ⟨X, bodies, body, (T.mem_entries_iff X bodies).1 hentry, hbody, rfl⟩
  · rintro ⟨X, bodies, body, hfind, hbody, rfl⟩
    exact ⟨(X, bodies), (T.mem_entries_iff X bodies).2 hfind, List.mem_map.2 ⟨body, hbody, rfl⟩⟩

/-! ## Full forests -/

namespace Derivation

namespace Forest

variable {T : Table} {Xs Ys : List Symbol}

theorem length_counts_le_expansions (f : Forest T Xs) : f.counts.length ≤ f.expansions := by
  induction f with
  | nil => exact Nat.le_refl 0
  | plain _ _ ih => exact ih
  | childless _ _ _ ih => exact Nat.le_succ_of_le ih
  | node _ _ _ _ _ ihc iho =>
      simp only [counts, expansions, List.length_cons, List.length_append]
      omega

/-- A forest is full when there is a choice at each of its expansions. -/
theorem isFull_iff (f : Forest T Xs) : f.isFull = true ↔ f.counts.length = f.expansions := by
  induction f with
  | nil => simp [isFull, counts, expansions]
  | plain _ _ ih => exact ih
  | childless _ _ others _ =>
      have hle := others.length_counts_le_expansions
      simp only [isFull, counts, expansions, Bool.false_eq_true, false_iff]
      omega
  | node _ _ _ children others ihc iho =>
      have hchildren := children.length_counts_le_expansions
      have hothers := others.length_counts_le_expansions
      simp only [isFull, counts, expansions, Bool.and_eq_true, ihc, iho, List.length_cons,
        List.length_append]
      omega

theorem words_append (f : Forest T Xs) (g : Forest T Ys) :
    (f.append g).words = f.words ++ g.words := by
  induction f with
  | nil => rfl
  | plain _ _ ih => simp [append, words, ih]
  | childless _ _ _ ih => simp [append, words, ih]
  | node _ _ _ _ _ _ iho => simp [append, words, iho]

theorem isFull_append (f : Forest T Xs) (g : Forest T Ys) :
    (f.append g).isFull = (f.isFull && g.isFull) := by
  induction f with
  | nil => simp [append, isFull]
  | plain _ _ ih => simp [append, isFull, ih]
  | childless => simp [append, isFull]
  | node _ _ _ _ _ _ iho => simp [append, isFull, iho, Bool.and_assoc]

/-- The two parts of a full forest are full. -/
theorem exists_append_of_isFull (f : Forest T (Xs ++ Ys)) (h : f.isFull = true) :
    ∃ (g : Forest T Xs) (k : Forest T Ys),
      g.isFull = true ∧ k.isFull = true ∧ f.words = g.words ++ k.words := by
  obtain ⟨g, k, hwords, -, hcounts, hexpansions⟩ := f.exists_append
  have hg := g.length_counts_le_expansions
  have hk := k.length_counts_le_expansions
  rw [isFull_iff, hcounts, hexpansions, List.length_append] at h
  refine ⟨g, k, ?_, ?_, hwords⟩
  · rw [isFull_iff]
    omega
  · rw [isFull_iff]
    omega

/-- In a full forest a symbol can stand in the place of one of its bodies. -/
theorem exists_isFull_of_body {before after : List Symbol} {X : Symbol} {bodies : List Body}
    {body : Body} (hX : X.isBracketed = true) (hfind : T.bodies? X = some bodies)
    (hbody : body ∈ bodies) (f : Forest T (before ++ body ++ after)) (h : f.isFull = true) :
    ∃ f' : Forest T (before ++ X :: after), f'.isFull = true ∧ f'.words = f.words := by
  obtain ⟨index, rfl⟩ := List.mem_iff_get.1 hbody
  obtain ⟨front, others, hfront, hothers, hwords⟩ := f.exists_append_of_isFull h
  obtain ⟨g, children, hg, hchildren, hwords'⟩ := front.exists_append_of_isFull hfront
  refine ⟨g.append (.node hX hfind index children others), ?_, ?_⟩
  · simp [isFull_append, isFull, hg, hchildren, hothers]
  · simp [words_append, words, hwords, hwords']

/-- Plain symbols are a full forest by themselves. -/
theorem exists_isFull_of_map_item (ws : List String) (h : Xs.map Symbol.item = ws.map .terminal) :
    ∃ f : Forest T Xs, f.isFull = true ∧ f.words = ws := by
  induction Xs generalizing ws with
  | nil =>
      obtain rfl : ws = [] := by simpa using h.symm
      exact ⟨.nil, rfl, rfl⟩
  | cons X Xs ih =>
      obtain _ | ⟨w, ws⟩ := ws
      · cases h
      · rw [List.map_cons, List.map_cons, List.cons.injEq] at h
        obtain ⟨hX, rfl⟩ := Symbol.item_eq_terminal h.1
        obtain ⟨f, hfull, rfl⟩ := ih ws h.2
        exact ⟨.plain hX f, hfull, rfl⟩

end Forest

end Derivation

/-! ## From forests to rewriting and back -/

namespace FlatGrammar

open BraceGrammar.Derivation

variable {F : FlatGrammar} {T : Table} {Xs : List Symbol}

theorem derives_of_isFull (hF : F.productions = T.productions) (f : Forest T Xs)
    (h : f.isFull = true) : F.Derives (Xs.map Symbol.item) (f.words.map .terminal) := by
  induction f with
  | nil => exact .refl
  | @plain X rest isPlain others ih =>
      have hothers := (ih h).append [.terminal X.text] []
      rw [Forest.words, List.map_cons, List.map_cons, Symbol.item_of_isPlain isPlain]
      simpa using hothers
  | childless => cases h
  | @node X rest bodies isBracketed found index children others ihc iho =>
      rw [Forest.isFull, Bool.and_eq_true] at h
      have hmember : (⟨X.bareName, (bodies.get index).map Symbol.item⟩ : Production) ∈
          F.productions := by
        rw [hF]
        exact Table.mem_productions_iff.2
          ⟨X, bodies, bodies.get index, found, List.get_mem bodies index, rfl⟩
      have hfirst : F.Derives ((X :: rest).map Symbol.item)
          ((bodies.get index).map Symbol.item ++ rest.map Symbol.item) := by
        rw [List.map_cons, Symbol.item_of_isBracketed isBracketed]
        exact .tail .refl (.intro [] (rest.map Symbol.item) hmember)
      have hchildren := (ihc h.1).append [] (rest.map Symbol.item)
      have hothers := (iho h.2).append (children.words.map .terminal) []
      rw [List.append_nil, List.append_nil] at hothers
      rw [Forest.words, List.map_append]
      exact (hfirst.trans hchildren).trans hothers

/-- One rewriting step replaces a symbol by one of its bodies. -/
theorem exists_body_of_rewrites (hF : F.productions = T.productions)
    (hheads : ∀ X ∈ T.heads, X.isBracketed = true) {form : List Item}
    (h : F.Rewrites (Xs.map Symbol.item) form) :
    ∃ before X after bodies body, Xs = before ++ X :: after ∧ X.isBracketed = true ∧
      T.bodies? X = some bodies ∧ body ∈ bodies ∧
      form = (before ++ body ++ after).map Symbol.item := by
  generalize hform : Xs.map Symbol.item = first at h
  obtain ⟨left, right, hmember⟩ := h
  rw [hF] at hmember
  obtain ⟨X, bodies, body, hfind, hbody, rfl⟩ := Table.mem_productions_iff.1 hmember
  obtain ⟨before, rest, rfl, rfl, hrest⟩ := List.map_eq_append_iff.1 hform
  obtain ⟨Y, after, rfl, hY, rfl⟩ := List.map_eq_cons_iff.1 hrest
  have hhead : X.isBracketed = true := by
    apply hheads
    exact (T.mem_keys_iff X).2 (Option.isSome_of_eq_some hfind)
  obtain ⟨hbracketed, hname⟩ := Symbol.item_eq_nonterminal hY
  obtain rfl : Y = X := Symbol.eq_of_bareName_eq hbracketed hhead hname
  refine ⟨before, Y, after, bodies, body, rfl, hhead, hfind, hbody, ?_⟩
  rw [List.map_append, List.map_append]

/-- A form that is derived from symbols consists of symbols, and a full forest of them comes of one
of the symbols that the derivation started from. -/
theorem exists_isFull_of_derives (hF : F.productions = T.productions)
    (hheads : ∀ X ∈ T.heads, X.isBracketed = true) {form : List Item}
    (h : F.Derives (Xs.map Symbol.item) form) :
    ∃ Ys, form = Ys.map Symbol.item ∧ ∀ g : Forest T Ys, g.isFull = true →
      ∃ f : Forest T Xs, f.isFull = true ∧ f.words = g.words := by
  induction h with
  | refl => exact ⟨Xs, rfl, fun g hg => ⟨g, hg, rfl⟩⟩
  | tail _ rewrites ih =>
      obtain ⟨Ys, rfl, hback⟩ := ih
      obtain ⟨before, X, after, bodies, body, rfl, hX, hfind, hbody, rfl⟩ :=
        exists_body_of_rewrites hF hheads rewrites
      refine ⟨before ++ body ++ after, rfl, fun g hg => ?_⟩
      obtain ⟨g', hg', hwords⟩ := Forest.exists_isFull_of_body hX hfind hbody g hg
      obtain ⟨f, hf, hwords'⟩ := hback g' hg'
      exact ⟨f, hf, hwords'.trans hwords⟩

/-- The texts derived from a symbol are the words of its full derivation trees. -/
theorem derives_iff_forest (hF : F.productions = T.productions)
    (hheads : ∀ X ∈ T.heads, X.isBracketed = true) (ws : List String) :
    F.Derives (Xs.map Symbol.item) (ws.map .terminal) ↔
      ∃ f : Forest T Xs, f.isFull = true ∧ f.words = ws := by
  constructor
  · intro h
    obtain ⟨Ys, hYs, hback⟩ := exists_isFull_of_derives hF hheads h
    obtain ⟨g, hg, hwords⟩ := Forest.exists_isFull_of_map_item (T := T) ws hYs.symm
    obtain ⟨f, hf, hwords'⟩ := hback g hg
    exact ⟨f, hf, hwords'.trans hwords⟩
  · rintro ⟨f, hf, rfl⟩
    exact derives_of_isFull hF f hf

end FlatGrammar

/-! ## The flat form of a grammar -/

namespace Grammar

open BraceGrammar.Derivation

/-- A derivation without a limit emits words on a list of answers, which it uses up.  The answers
are indices of the bodies that they choose among, and there are as many as expansions, so that every
head that is expanded has a body. -/
def EmitsFully (g : Grammar) (answers : List Int) (words : List String) : Prop :=
  ∃ fuel asked,
    derive g.table none (recording answering) fuel g.start? (answers, []) =
      some ⟨.ok words, asked.length, [], asked.reverse⟩ ∧
    generate g.table none (recording answering) fuel g.start? (answers, []) =
      some (.ok (sentence words), [], asked.reverse) ∧
    List.Forall₂ IsIndex answers asked

variable {g : Grammar} {S : Symbol}

theorem exists_emitsFully_iff_forest (hstart : g.start? = some S) (ws : List String) :
    (∃ answers, g.EmitsFully answers ws) ↔
      ∃ f : Forest g.table [S], f.isFull = true ∧ f.words = ws := by
  constructor
  · rintro ⟨answers, fuel, asked, hderive, -, -⟩
    rw [hstart] at hderive
    have hends : Ends g.table none (recording answering) ⟨[S], [], 0, (answers, [])⟩
        ⟨.ok ws, asked.length, ([], asked.reverse)⟩ := exists_run_iff.1 ⟨fuel, hderive⟩
    obtain ⟨f, hask, hwords, hexpansions⟩ := ends_iff_forest.1 hends
    rw [askEach_recording] at hask
    have hasked : f.counts.reverse ++ [] = asked.reverse := congrArg (·.2.2) hask
    rw [List.append_nil, List.reverse_inj] at hasked
    refine ⟨f, ?_, hwords.symm⟩
    rw [Forest.isFull_iff, hasked, hexpansions, Nat.zero_add]
  · rintro ⟨f, hfull, rfl⟩
    have hends : Ends g.table none (recording answering) ⟨[S], [], 0, (f.answers, [])⟩
        ⟨.ok f.words, f.counts.length, ([], f.counts.reverse)⟩ := by
      refine ends_iff_forest.2 ⟨f, f.askEach_recording_answers, rfl, ?_⟩
      rw [f.isFull_iff.1 hfull, Nat.zero_add]
    obtain ⟨fuel, hrun⟩ := exists_run_iff.2 hends
    have hderive : derive g.table none (recording answering) fuel g.start? (f.answers, []) =
        some ⟨.ok f.words, f.counts.length, ([], f.counts.reverse)⟩ := by
      rw [hstart]
      exact hrun
    refine ⟨f.answers, fuel, f.counts, hderive, ?_, f.forall₂_isIndex⟩
    rw [generate, hderive]
    rfl

theorem flatten_eq_ok (hstart : g.start? = some S) {X : Symbol} {bodies : List Body}
    (hfind : g.table.bodies? X = some bodies) (hbodies : bodies ≠ []) :
    g.flatten = .ok ⟨S.bareName, g.table.productions⟩ := by
  obtain ⟨body, hbody⟩ := List.exists_mem_of_ne_nil bodies hbodies
  have hmember := Table.mem_productions_iff.2 ⟨X, bodies, body, hfind, hbody, rfl⟩
  have hempty : g.table.productions.isEmpty = false :=
    List.isEmpty_eq_false_iff.2 (List.ne_nil_of_mem hmember)
  simp [flatten, hstart, hempty]

/-- When all heads and the start symbol are bracketed and some head has a body, there is a flat
form.  Its sentences are what derivations emit in which every expanded head has a body. -/
theorem flatten_isSentence_iff (g : Grammar) (S : Symbol) (hstart : g.start? = some S)
    (hS : S.isBracketed = true) (hheads : ∀ X ∈ g.table.heads, X.isBracketed = true)
    (hbodies : ∃ X bodies, g.table.bodies? X = some bodies ∧ bodies ≠ []) :
    ∃ F, g.flatten = .ok F ∧
      ∀ words, F.IsSentence words ↔ ∃ answers, g.EmitsFully answers words := by
  obtain ⟨X, bodies, hfind, hne⟩ := hbodies
  refine ⟨_, flatten_eq_ok hstart hfind hne, fun words => ?_⟩
  have hfirst : ([.nonterminal S.bareName] : List FlatGrammar.Item) = [S].map Symbol.item := by
    rw [List.map_singleton, Symbol.item_of_isBracketed hS]
  rw [exists_emitsFully_iff_forest hstart, FlatGrammar.IsSentence, hfirst]
  exact FlatGrammar.derives_iff_forest rfl hheads words

/-- A name without letters, a word that is the bare name of a head, a head without bodies, and a
bracketed symbol without an entry. -/
def oddNames : Grammar where
  table := .ofList [
    (⟨"<S>"⟩, [[⟨"<>"⟩, ⟨"S"⟩], [⟨"<E>"⟩], [⟨"<U>"⟩]]),
    (⟨"<>"⟩, [[], [⟨"b"⟩, ⟨"<>"⟩]]),
    (⟨"<E>"⟩, [])]
  start? := some ⟨"<S>"⟩

theorem isSentence_oddNames :
    oddNames.start? = some ⟨"<S>"⟩ ∧ (⟨"<S>"⟩ : Symbol).isBracketed = true ∧
      (∀ X ∈ oddNames.table.heads, X.isBracketed = true) ∧
      oddNames.table.bodies? ⟨"<>"⟩ = some [[], [⟨"b"⟩, ⟨"<>"⟩]] ∧
      ∃ F, oddNames.flatten = .ok F ∧ F.IsSentence ["b", "S"] := by
  have hheads : ∀ X ∈ oddNames.table.heads, X.isBracketed = true := by decide
  have hfind : oddNames.table.bodies? ⟨"<>"⟩ = some [[], [⟨"b"⟩, ⟨"<>"⟩]] := by decide
  obtain ⟨F, hF, hsentences⟩ := flatten_isSentence_iff oddNames ⟨"<S>"⟩ rfl (by decide) hheads
    ⟨_, _, hfind, by decide⟩
  have hfull : oddNames.EmitsFully [0, 1, 0] ["b", "S"] := by
    refine ⟨9, [3, 2, 2], by rfl, by rfl, ?_⟩
    simp [IsIndex]
  exact ⟨rfl, by decide, hheads, hfind, F, hF, (hsentences _).2 ⟨_, hfull⟩⟩

end Grammar

end BraceGrammar
