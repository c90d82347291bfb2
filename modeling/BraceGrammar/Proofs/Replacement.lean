import BraceGrammar.Proofs.Token

/-!
# Pairs replaced

Tokens with blanks between them are their text with a blank in the place of each pair of carriage
return and line feed.  `blankPairs` goes through the characters one after the other; a replacement
by search instead finds the places where the pair is and takes over all that lies between them.
Both give the same text (`toList_replace_pairs`): where a stretch is passed over no pair begins, and
`blankPairs` leaves such a stretch as it is, also when its last character is a carriage return.

So cutting and joining undo each other between the texts without a pair and the nonempty lists of
whole tokens, and nowhere else (`split_inverse_join`).
-/

namespace BraceGrammar

namespace Token

/-- A stretch in which no pair begins stays as it is. -/
theorem blankPairs_append_of_not_prefix {l r : List Char}
    (h : ∀ tail, tail ≠ [] → tail <:+ l → ¬['\r', '\n'] <+: tail ++ r) :
    blankPairs (l ++ r) = l ++ blankPairs r := by
  induction l with
  | nil => rfl
  | cons c l ih =>
      have hc : ¬['\r', '\n'] <+: c :: (l ++ r) :=
        h (c :: l) (List.cons_ne_nil c l) List.suffix_rfl
      have hhead : ¬(c = '\r' ∧ (l ++ r).head? = some '\n') := by
        rintro ⟨rfl, hhead⟩
        obtain ⟨tail, htail⟩ := List.head?_eq_some_iff.1 hhead
        exact hc ⟨tail, by rw [htail]; rfl⟩
      rw [List.cons_append, blankPairs_cons_of_head hhead, List.cons_append,
        ih fun tail hne htail => h tail hne (htail.trans (List.suffix_cons c l))]

/-! ## A search for pairs -/

section Search

open String (Slice)
open String.Slice.Pattern (SearchStep)
open String.Slice.Pattern.Model (IsValidSearchFrom MatchesAt)
open String.Slice.Pattern.Model.ForwardStringSearcher

variable {s : Slice} {p q : s.Pos} {before between after : String}

theorem copy_slice_of_splits (hp : p.Splits before (between ++ after))
    (hq : q.Splits (before ++ between) after) : (s.slice! p q).copy = between := by
  obtain ⟨hle, hcopy⟩ := Slice.copy_slice_eq_iff_splits.2 ⟨_, _, hp, hq⟩
  rw [Slice.slice!, dif_pos hle]
  exact hcopy

/-- A pair that begins in a stretch is found at a place of the stretch. -/
theorem exists_matchesAt_of_prefix (hp : p.Splits before (between ++ after))
    (hq : q.Splits (before ++ between) after) {tail : List Char} (hne : tail ≠ [])
    (htail : tail <:+ between.toList) (hpair : ['\r', '\n'] <+: tail ++ after.toList) :
    ∃ pos, p ≤ pos ∧ pos < q ∧ MatchesAt "\r\n" pos := by
  obtain ⟨start, hstart⟩ := htail
  obtain ⟨rest, hrest⟩ := hpair
  have hbetween : between = String.ofList start ++ String.ofList tail := by
    rw [← String.ofList_append, hstart, String.ofList_toList]
  have hafter : String.ofList tail ++ after = "\r\n" ++ String.ofList rest := by
    apply String.toList_injective
    simp [← hrest]
  have hp' : p.Splits before (String.ofList start ++ ("\r\n" ++ String.ofList rest)) := by
    rwa [hbetween, String.append_assoc, hafter] at hp
  have hpos := hp'.splits_rotateRight
  have hle := (hp'.le_iff_exists_eq_append hpos).2 ⟨_, rfl, rfl⟩
  have hlt := (hpos.lt_iff_exists_eq_append hq).2
    ⟨String.ofList tail, by simpa using hne, by rw [hbetween, String.append_assoc], hafter.symm⟩
  have hmatch := isLongestMatchAt_iff_splits.2 ⟨_, _, hpos, hpos.splits_rotateRight⟩
  exact ⟨_, hle, hlt, ⟨_, hmatch⟩⟩

/-- What is put together from the places that a search has found, on from any of them. -/
theorem toList_foldl_of_isValidSearchFrom {f : String → SearchStep s → String}
    (hmatched : ∀ done p q, f done (.matched p q) = done ++ " ")
    (hrejected : ∀ done p q, f done (.rejected p q) = done ++ (s.slice! p q).copy)
    {steps : List (SearchStep s)} (hsteps : IsValidSearchFrom "\r\n" p steps)
    (hp : p.Splits before after) (done : String) :
    (steps.foldl f done).toList = done.toList ++ blankPairs after.toList := by
  induction hsteps generalizing before after done with
  | endPos =>
      obtain rfl := (Slice.splits_endPos_iff.1 hp).2
      simp [blankPairs]
  | @matched steps p q hmatch hrest ih =>
      obtain ⟨_, rest, hp', hq⟩ := isLongestMatchAt_iff_splits.1 hmatch
      obtain ⟨rfl, rfl⟩ := hp.eq hp'
      rw [List.foldl_cons, hmatched, ih hq]
      simp [blankPairs]
  | @mismatched steps p q hlt hno hrest ih =>
      obtain ⟨between, -, hbetween, rfl⟩ := (hp.lt_iff_exists_eq_append q.splits).1 hlt
      have hq := q.splits
      rw [hbetween] at hq
      -- the pair may also begin with the last character of the stretch and end behind it
      have hstretch : blankPairs (between.toList ++ (s.sliceFrom q).copy.toList) =
          between.toList ++ blankPairs (s.sliceFrom q).copy.toList := by
        refine blankPairs_append_of_not_prefix fun tail hne htail hpair => ?_
        obtain ⟨pos, hle, hlt, hmatch⟩ := exists_matchesAt_of_prefix hp hq hne htail hpair
        exact hno pos hle hlt hmatch
      rw [List.foldl_cons, hrejected, ih hq, copy_slice_of_splits hp hq, String.toList_append,
        String.toList_append, hstretch, List.append_assoc]

theorem toList_replace_pairs (text : String) :
    (text.replace "\r\n" " ").toList = blankPairs text.toList := by
  have hlawful := @lawfulToForwardSearcherModel "\r\n" (by decide)
  have hsteps := hlawful.isValidSearchFrom_toList text.toSlice
  rw [String.replace, Slice.replace, ← Std.Iter.foldl_toList,
    toList_foldl_of_isValidSearchFrom (fun _ _ _ => rfl) (fun _ _ _ => rfl) hsteps
      (Slice.splits_startPos _)]
  simp

end Search

/-! ## Cutting and joining -/

theorem join_split (text : String) : join (split text) = text.replace "\r\n" " " := by
  apply String.toList_injective
  rw [toList_join_split, toList_replace_pairs]

/-- The tokens of a text are whole, at least one, and with blanks between them the text with a
blank for each pair.  Cutting undoes joining for the nonempty lists of whole tokens and for no
others, joining undoes cutting for the texts without a pair and for no others, and a blank or a pair
between two texts parts their tokens. -/
theorem split_inverse_join :
    (∀ text, split text ≠ [] ∧ (∀ t ∈ split text, IsWhole t) ∧
        join (split text) = text.replace "\r\n" " ") ∧
      (∀ tokens, split (join tokens) = tokens ↔ tokens ≠ [] ∧ ∀ t ∈ tokens, IsWhole t) ∧
      (∀ text, join (split text) = text ↔ ¬['\r', '\n'] <:+: text.toList) ∧
      ∀ s t, split (s ++ " " ++ t) = split s ++ split t ∧
        split (s ++ "\r\n" ++ t) = split s ++ split t := by
  refine ⟨fun text => ⟨?_, fun t ht => ?_, ?_⟩, fun tokens => ?_, fun text => ?_, fun s t => ⟨?_, ?_⟩⟩
  · exact split_ne_nil text
  · exact isWhole_of_mem_split ht
  · exact join_split text
  · exact split_join_eq_self_iff tokens
  · exact join_split_eq_self_iff text
  · exact split_append_blank s t
  · exact split_append_pair s t

example : split "a\r\r\n\n\rb  c" = ["a\r", "\n\rb", "", "c"] := by decide

end Token

end BraceGrammar
