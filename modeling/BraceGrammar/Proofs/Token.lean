import BraceGrammar.Grammar.Writable

/-!
# Cutting and joining

Cutting a text into tokens goes piece by piece at a blank and at a pair of carriage return and line
feed (`split_append_blank`, `split_append_pair`), leaves a whole text in one piece
(`split_of_isWhole`), and so undoes `join` on whole tokens (`split_join`).  All tokens of a text are
whole (`isWhole_of_mem_split`): a pair that became a blank leaves no pair behind, whatever carriage
returns and line feeds stand around it.  More text behind a text changes none of its tokens but the
last (`split_append`).
-/

namespace BraceGrammar

namespace Token

/-! ## Pairs of carriage return and line feed -/

theorem blankPairs_cons_of_head {c : Char} {rest : List Char}
    (h : ¬(c = '\r' ∧ rest.head? = some '\n')) : blankPairs (c :: rest) = c :: blankPairs rest := by
  rw [blankPairs]
  rintro tail rfl rfl
  exact h ⟨rfl, rfl⟩

/-- No pair comes about where two texts meet if the second does not begin with a line feed. -/
theorem blankPairs_append_of_head {l r : List Char} (h : r.head? ≠ some '\n') :
    blankPairs (l ++ r) = blankPairs l ++ blankPairs r := by
  fun_induction blankPairs l with
  | case1 rest ih => rw [List.cons_append, List.cons_append, blankPairs, ih, List.cons_append]
  | case2 c rest hpair ih =>
      rw [List.cons_append, blankPairs_cons_of_head, ih, List.cons_append]
      rintro ⟨rfl, hhead⟩
      cases rest with
      | nil => exact h hhead
      | cons d rest => exact hpair rest rfl (by simpa using hhead)
  | case3 => rfl

/-- A blank parts what is before it from what is after it. -/
theorem blankPairs_append_blank (l r : List Char) :
    blankPairs (l ++ ' ' :: r) = blankPairs l ++ ' ' :: blankPairs r := by
  rw [blankPairs_append_of_head (by simp), blankPairs_cons_of_head (by simp)]

/-- So does a pair, whatever carriage returns are before it and line feeds after it. -/
theorem blankPairs_append_pair (l r : List Char) :
    blankPairs (l ++ '\r' :: '\n' :: r) = blankPairs l ++ ' ' :: blankPairs r := by
  rw [blankPairs_append_of_head (by simp), blankPairs]

theorem blankPairs_of_not_infix {l : List Char} (h : ¬['\r', '\n'] <:+: l) : blankPairs l = l := by
  fun_induction blankPairs l with
  | case1 rest ih => exact absurd ⟨[], rest, rfl⟩ h
  | case2 c rest hpair ih => rw [ih fun hrest => h (hrest.trans (List.suffix_cons c rest).isInfix)]
  | case3 => rfl

theorem head?_blankPairs_append_ne {l r : List Char} (h : (l ++ r).head? ≠ some '\n') :
    (blankPairs l ++ r).head? ≠ some '\n' := by
  fun_cases blankPairs l with
  | case1 rest => simp
  | case2 c rest hpair => exact h
  | case3 => exact h

/-- No pair is left, and none comes about. -/
theorem not_infix_blankPairs (l : List Char) : ¬['\r', '\n'] <:+: blankPairs l := by
  fun_induction blankPairs l with
  | case1 rest ih =>
      rw [List.infix_cons_iff, not_or]
      refine ⟨fun h => ?_, ih⟩
      have hhead := (List.cons_prefix_cons.1 h).1
      exact absurd hhead (by decide)
  | case2 c rest hpair ih =>
      rw [List.infix_cons_iff, not_or]
      refine ⟨fun h => ?_, ih⟩
      obtain ⟨hc, hrest⟩ := List.cons_prefix_cons.1 h
      refine head?_blankPairs_append_ne (l := rest) (r := []) (fun hhead => ?_) ?_
      · rw [List.append_nil] at hhead
        obtain ⟨tail, rfl⟩ := List.head?_eq_some_iff.1 hhead
        exact hpair tail hc.symm rfl
      · obtain ⟨tail, htail⟩ := hrest
        rw [← htail]
        rfl
  | case3 => simp

/-- The pairs of a text may become blanks before another text is put behind it. -/
theorem blankPairs_append (l r : List Char) :
    blankPairs (l ++ r) = blankPairs (blankPairs l ++ r) := by
  fun_induction blankPairs l with
  | case1 rest ih =>
      rw [List.cons_append, List.cons_append, blankPairs, ih, List.cons_append,
        blankPairs_cons_of_head (by simp)]
  | case2 c rest hpair ih =>
      by_cases hrest : rest = []
      · subst hrest
        rfl
      · have hhead : ¬(c = '\r' ∧ (rest ++ r).head? = some '\n') := by
          rintro ⟨hc, hhead⟩
          obtain ⟨d, tail, rfl⟩ := List.exists_cons_of_ne_nil hrest
          obtain rfl := Option.some.inj hhead
          exact hpair tail hc rfl
        have hhead' : ¬(c = '\r' ∧ (blankPairs rest ++ r).head? = some '\n') :=
          fun h => head?_blankPairs_append_ne (fun hn => hhead ⟨h.1, hn⟩) h.2
        rw [List.cons_append, List.cons_append, blankPairs_cons_of_head hhead,
          blankPairs_cons_of_head hhead', ih]
  | case3 => rfl

theorem mem_blankPairs {c : Char} {l : List Char} (h : c ∈ blankPairs l) : c = ' ' ∨ c ∈ l := by
  fun_induction blankPairs l with
  | case1 rest ih =>
      rcases List.mem_cons.1 h with rfl | h
      · exact .inl rfl
      · exact (ih h).imp_right fun h => by simp [h]
  | case2 d rest hpair ih =>
      rcases List.mem_cons.1 h with rfl | h
      · exact .inr List.mem_cons_self
      · exact (ih h).imp_right (List.mem_cons_of_mem d)
  | case3 => exact .inr h

/-! ## Pieces of a list -/

section Pieces

variable {α : Type} [DecidableEq α] {a : α} {l piece : List α}

theorem notMem_of_mem_splitOn (h : piece ∈ l.splitOn a) : a ∉ piece := by
  induction l generalizing piece with
  | nil => simp_all
  | cons c l ih =>
      rw [List.splitOn_cons_eq_if_modifyHead] at h
      split at h
      · next =>
        rcases List.mem_cons.1 h with rfl | h
        · simp
        · exact ih h
      · next hc =>
        cases hl : l.splitOn a with
        | nil => exact absurd hl (List.splitOn_ne_nil a l)
        | cons first others =>
            rw [hl] at h ih
            rcases List.mem_cons.1 h with rfl | h
            · have hfirst := ih List.mem_cons_self
              rw [List.mem_cons, not_or]
              exact ⟨fun e => hc (by simp [e]), hfirst⟩
            · exact ih (List.mem_cons_of_mem _ h)

omit [DecidableEq α] in
theorem infix_intercalate {pieces : List (List α)} (h : piece ∈ pieces) (between : List α) :
    piece <:+: between.intercalate pieces := by
  induction pieces with
  | nil => simp at h
  | cons first others ih =>
      cases others with
      | nil => simp_all
      | cons second others =>
          rw [List.intercalate_cons_cons]
          rcases List.mem_cons.1 h with rfl | h
          · rw [List.append_assoc]
            exact (List.prefix_append _ _).isInfix
          · exact (ih h).trans (List.suffix_append _ _).isInfix

theorem infix_of_mem_splitOn (h : piece ∈ l.splitOn a) : piece <:+: l := by
  have hjoin := infix_intercalate h [a]
  rwa [List.intercalate_splitOn] at hjoin

end Pieces

/-! ## Tokens -/

theorem split_ne_nil (text : String) : split text ≠ [] := by
  rw [split, ne_eq, List.map_eq_nil_iff]
  exact List.splitOn_ne_nil ' ' _

theorem split_of_blankPairs {s t text : String}
    (h : blankPairs text.toList = blankPairs s.toList ++ ' ' :: blankPairs t.toList) :
    split text = split s ++ split t := by
  rw [split, h, List.splitOn_append_cons_self, List.map_append]
  rfl

/-- A blank between two texts parts their tokens. -/
theorem split_append_blank (s t : String) : split (s ++ " " ++ t) = split s ++ split t := by
  have htext : (s ++ " " ++ t).toList = s.toList ++ ' ' :: t.toList := by simp
  exact split_of_blankPairs (by rw [htext, blankPairs_append_blank])

/-- A pair between two texts parts their tokens. -/
theorem split_append_pair (s t : String) : split (s ++ "\r\n" ++ t) = split s ++ split t := by
  have htext : (s ++ "\r\n" ++ t).toList = s.toList ++ '\r' :: '\n' :: t.toList := by simp
  exact split_of_blankPairs (by rw [htext, blankPairs_append_pair])

theorem split_of_isWhole {text : String} (h : IsWhole text) : split text = [text] := by
  rw [split, blankPairs_of_not_infix h.2, List.splitOn_eq_singleton h.1, List.map_singleton,
    String.ofList_toList]

theorem split_join {tokens : List String} (hne : tokens ≠ []) (h : ∀ t ∈ tokens, IsWhole t) :
    split (join tokens) = tokens := by
  induction tokens with
  | nil => exact absurd rfl hne
  | cons t tokens ih =>
      have ht : split t = [t] := split_of_isWhole (h t List.mem_cons_self)
      by_cases hlast : tokens = []
      · subst hlast
        rw [join, String.intercalate_singleton, ht]
      · have htokens := ih hlast fun u hu => h u (List.mem_cons_of_mem t hu)
        rw [join] at htokens ⊢
        rw [String.intercalate_cons_of_ne_nil hlast, split_append_blank, ht, htokens,
          List.singleton_append]

theorem isWhole_of_mem_split {text t : String} (h : t ∈ split text) : IsWhole t := by
  obtain ⟨piece, hpiece, rfl⟩ := List.mem_map.1 h
  rw [IsWhole, String.toList_ofList]
  exact ⟨notMem_of_mem_splitOn hpiece, fun hpair =>
    not_infix_blankPairs text.toList (hpair.trans (infix_of_mem_splitOn hpiece))⟩

theorem split_join_eq_self_iff (tokens : List String) :
    split (join tokens) = tokens ↔ tokens ≠ [] ∧ ∀ t ∈ tokens, IsWhole t := by
  constructor
  · intro h
    refine ⟨fun hnil => split_ne_nil (join tokens) (h.trans hnil), fun t ht => ?_⟩
    rw [← h] at ht
    exact isWhole_of_mem_split ht
  · rintro ⟨hne, hwhole⟩
    exact split_join hne hwhole

theorem mem_of_mem_split {c : Char} {text t : String} (ht : t ∈ split text) (hc : c ∈ t.toList) :
    c ∈ text.toList := by
  obtain ⟨piece, hpiece, rfl⟩ := List.mem_map.1 ht
  rw [String.toList_ofList] at hc
  rcases mem_blankPairs ((infix_of_mem_splitOn hpiece).subset hc) with rfl | hmem
  · exact absurd hc (notMem_of_mem_splitOn hpiece)
  · exact hmem

/-- The tokens of a text with blanks between them are the text with a blank for each pair. -/
theorem toList_join_split (text : String) : (join (split text)).toList = blankPairs text.toList := by
  have hid : String.toList ∘ String.ofList = id := funext fun _ => String.toList_ofList
  rw [join, String.toList_intercalate, split, List.map_map, hid, List.map_id]
  exact List.intercalate_splitOn _

theorem join_split_eq_self_iff (text : String) :
    join (split text) = text ↔ ¬['\r', '\n'] <:+: text.toList := by
  rw [← String.toList_inj, toList_join_split]
  constructor
  · intro h
    rw [← h]
    exact not_infix_blankPairs text.toList
  · exact blankPairs_of_not_infix

/-- What is put behind a text is read together with the last token of the text. -/
theorem split_append {s last : String} {before : List String} (h : split s = before ++ [last])
    (t : String) : split (s ++ t) = before ++ split (last ++ t) := by
  have hwhole : ∀ token ∈ before, IsWhole token :=
    fun token htoken => isWhole_of_mem_split (h ▸ List.mem_append_left [last] htoken)
  have hjoin : split (s ++ t) = split (join (before ++ [last]) ++ t) := by
    rw [← h, split, split, String.toList_append, String.toList_append, toList_join_split,
      blankPairs_append]
  rw [hjoin]
  by_cases hbefore : before = []
  · subst hbefore
    rw [List.nil_append, List.nil_append, join, String.intercalate_singleton]
  · rw [join, String.intercalate_append_of_ne_nil hbefore (List.cons_ne_nil _ _),
      String.intercalate_singleton, String.append_assoc, split_append_blank]
    exact congrArg (· ++ split (last ++ t)) (split_join hbefore hwhole)

end Token

end BraceGrammar
