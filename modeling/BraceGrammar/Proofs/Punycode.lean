import BraceGrammar.Codec.Punycode
import BraceGrammar.Proofs.Codec
import Mathlib.Data.Char
import Mathlib.Tactic.Ring

/-!
# Decoding Punycode

Decoding undoes encoding (`Punycode.undoes_codec`).  A number is read in front of whatever is behind
it (`readNumber_digits`).  Insertions that come in order, each at a place of the text as it is by
then, are read back (`readInsertions_writeInsertions`), and those of a text are in order
(`fits_insertions`).  Making them gives the text (`foldl_insertions`): after all insertions of a
character, what is there is the characters of the text that are not greater.
-/

namespace BraceGrammar

namespace Punycode

/-! ## Numbers -/

theorem digit?_ofDigit {d : Nat} (h : d < 36) : digit? (ofDigit d) = some d := by
  have hall : ∀ d < 36, digit? (ofDigit d) = some d := by decide
  exact hall d h

theorem lt_of_mem_digits {bias index n d : Nat} (h : d ∈ digits bias index n) : d < 36 := by
  fun_induction digits bias index n with
  | case1 index n t hlt =>
      have ht := threshold_bounds bias index
      rw [List.mem_singleton] at h
      omega
  | case2 index n t hge ih =>
      have ht := threshold_bounds bias index
      rcases List.mem_cons.1 h with rfl | h
      · have hmod := Nat.mod_lt (n - t) (show 0 < 36 - t by omega)
        omega
      · exact ih h

theorem digits_ne_nil (bias index n : Nat) : digits bias index n ≠ [] := by
  rw [digits]
  split <;> exact List.cons_ne_nil _ _

/-- A number is read with the weight of its first digit, whatever is behind it. -/
theorem readNumber_digits (bias index weight n : Nat) (rest : Bytes) :
    readNumber bias index weight ((digits bias index n).map ofDigit ++ rest) =
      .ok (n * weight, rest) := by
  fun_induction digits bias index n generalizing weight with
  | case1 index n t hlt =>
      have ht := threshold_bounds bias index
      rw [List.map_singleton, List.singleton_append, readNumber, digit?_ofDigit (by omega)]
      exact if_pos hlt
  | case2 index n t hge ih =>
      have ht := threshold_bounds bias index
      have hmod := Nat.mod_lt (n - t) (show 0 < 36 - t by omega)
      have hnumber : (t + (n - t) % (36 - t)) * weight + (n - t) / (36 - t) * (weight * (36 - t)) =
          n * weight := by
        have hdiv := Nat.div_add_mod (n - t) (36 - t)
        calc (t + (n - t) % (36 - t)) * weight + (n - t) / (36 - t) * (weight * (36 - t))
          _ = (t + ((36 - t) * ((n - t) / (36 - t)) + (n - t) % (36 - t))) * weight := by ring
          _ = n * weight := by rw [hdiv, Nat.add_sub_cancel' (Nat.le_of_not_lt hge)]
      rw [List.map_cons, List.cons_append, readNumber, digit?_ofDigit (by omega)]
      dsimp only
      rw [if_neg (by omega), ih, Except.map, hnumber]

/-! ## Insertions in order -/

/-- Insertions come in the order of their characters and places, from a character and a place on,
each of them at a place of a text that has so many characters before the first. -/
def Fits : (number next length : Nat) → List (Char × Nat) → Prop
  | _, _, _, [] => True
  | number, next, length, (c, place) :: rest =>
    place ≤ length ∧ (number < c.toNat ∨ number = c.toNat ∧ next ≤ place) ∧
      Fits c.toNat (place + 1) (length + 1) rest

/-- Makes insertions one after the other. -/
def insertAll (text : List Char) (insertions : List (Char × Nat)) : List Char :=
  insertions.foldl (fun text (c, place) => text.insertIdx place c) text

/-- The first insertion is the one that the first number leads to. -/
theorem readInsertions_of_readNumber {s : Cursor} {text : List Char} {bytes rest : Bytes}
    {n number place : Nat} (hsome : bytes ≠ [])
    (hread : readNumber s.bias 0 1 bytes = .ok (n, rest))
    (hnumber : s.number + (s.next + n) / (text.length + 1) = number)
    (hplace : (s.next + n) % (text.length + 1) = place) (hvalid : number.isValidChar) :
    readInsertions s text bytes =
      readInsertions (s.pass n (text.length + 1) number place)
        (text.insertIdx place (.ofNat number)) rest := by
  rw [readInsertions, if_neg hsome]
  split
  · next fault hfault =>
    rw [hread] at hfault
    cases hfault
  · next n' rest' hread' =>
    rw [hread] at hread'
    cases hread'
    dsimp only
    rw [hnumber, hplace, if_pos hvalid]

theorem readInsertions_writeInsertions {s : Cursor} {text : List Char}
    {insertions : List (Char × Nat)} (hfits : Fits s.number s.next text.length insertions)
    (hnext : s.next ≤ text.length) :
    readInsertions s text (writeInsertions s text.length insertions) =
      .ok (insertAll text insertions) := by
  induction insertions generalizing s text with
  | nil =>
      rw [writeInsertions, readInsertions, if_pos rfl]
      rfl
  | cons insertion rest ih =>
      obtain ⟨c, place⟩ := insertion
      obtain ⟨hplace, horder, hrest⟩ := hfits
      obtain ⟨n, hn⟩ : ∃ n, n = (c.toNat - s.number) * (text.length + 1) + place - s.next :=
        ⟨_, rfl⟩
      -- passing over so many pairs leads to the character and the place again
      have hreached : s.next + n = place + (text.length + 1) * (c.toNat - s.number) := by
        have hbefore : s.next ≤ (c.toNat - s.number) * (text.length + 1) + place := by
          rcases horder with hless | ⟨-, hle⟩
          · have hrow := Nat.le_mul_of_pos_left (text.length + 1) (Nat.sub_pos_of_lt hless)
            omega
          · omega
        rw [hn, Nat.mul_comm (text.length + 1)]
        omega
      have hdiv : s.number + (s.next + n) / (text.length + 1) = c.toNat := by
        rw [hreached, Nat.add_mul_div_left _ _ (Nat.succ_pos _), Nat.div_eq_of_lt (by omega)]
        omega
      have hmod : (s.next + n) % (text.length + 1) = place := by
        rw [hreached, Nat.add_mul_mod_self_left, Nat.mod_eq_of_lt (by omega)]
      have hlength := List.length_insertIdx_of_le_length hplace c
      have hmore := @ih (s.pass n (text.length + 1) c.toNat place) (text.insertIdx place c)
        (by rwa [hlength]) (by rw [hlength]; exact Nat.succ_le_succ hplace)
      rw [hlength] at hmore
      have hsome : (digits s.bias 0 n).map ofDigit ++
          writeInsertions (s.pass n (text.length + 1) c.toNat place) (text.length + 1) rest ≠
            [] := by
        simp [digits_ne_nil]
      have hread := readNumber_digits s.bias 0 1 n
        (writeInsertions (s.pass n (text.length + 1) c.toNat place) (text.length + 1) rest)
      rw [Nat.mul_one] at hread
      rw [writeInsertions, ← hn, readInsertions_of_readNumber hsome hread hdiv hmod c.valid,
        Char.ofNat_toNat, hmore]
      rfl

/-! ## The insertions of a text -/

theorem insertIdx_append (before after : List Char) (c : Char) :
    (before ++ after).insertIdx before.length c = before ++ c :: after := by
  induction before with
  | nil => rfl
  | cons x before ih => rw [List.cons_append, List.length_cons, List.insertIdx_succ_cons, ih,
      List.cons_append]

/-- The insertions of one character. -/
def insertionsOf (c : Char) (here : Nat) (text : List Char) : List (Char × Nat) :=
  (places c here text).map fun place => (c, place)

section Character

variable {c x : Char} {rest : List Char}

theorem insertionsOf_self (here : Nat) :
    insertionsOf c here (c :: rest) = (c, here) :: insertionsOf c (here + 1) rest := by
  rw [insertionsOf, places, if_pos rfl]
  rfl

theorem insertionsOf_of_lt (h : x < c) (here : Nat) :
    insertionsOf c here (x :: rest) = insertionsOf c (here + 1) rest := by
  rw [insertionsOf, places, if_neg h.ne, if_pos h]
  rfl

theorem insertionsOf_of_gt (h : c < x) (here : Nat) :
    insertionsOf c here (x :: rest) = insertionsOf c here rest := by
  rw [insertionsOf, places, if_neg h.ne', if_neg h.not_gt]
  rfl

end Character

/-- What is less than a character becomes what is not greater when the character is inserted. -/
theorem insertAll_insertionsOf (c : Char) (before rest : List Char) :
    insertAll (before ++ rest.filter (· < c)) (insertionsOf c before.length rest) =
      before ++ rest.filter (· ≤ c) := by
  induction rest generalizing before with
  | nil => rfl
  | cons x rest ih =>
      have hnext := ih (before ++ [x])
      simp only [List.append_assoc, List.singleton_append, List.length_append,
        List.length_singleton] at hnext
      obtain hless | rfl | hgreater := lt_trichotomy x c
      · rw [insertionsOf_of_lt hless, List.filter_cons_of_pos (by simpa using hless),
          List.filter_cons_of_pos (by simpa using hless.le), hnext]
      · rw [insertionsOf_self, List.filter_cons_of_neg (by simp),
          List.filter_cons_of_pos (by simp), ← hnext, ← insertIdx_append]
        rfl
      · rw [insertionsOf_of_gt hgreater, List.filter_cons_of_neg (by simpa using hgreater.le),
          List.filter_cons_of_neg (by simpa using hgreater), ih]

/-- Insertions of one character come in order, if nothing up to there has been inserted. -/
theorem fits_insertionsOf {c : Char} {number next here : Nat} {rest : List Char}
    {more : List (Char × Nat)} (horder : number < c.toNat ∨ number = c.toNat ∧ next ≤ here)
    (hmore : ∀ number' next', number' ≤ c.toNat →
      Fits number' next' (here + (rest.filter (· ≤ c)).length) more) :
    Fits number next (here + (rest.filter (· < c)).length) (insertionsOf c here rest ++ more) := by
  induction rest generalizing number next here with
  | nil => exact hmore number next (by omega)
  | cons x rest ih =>
      obtain hless | rfl | hgreater := lt_trichotomy x c
      · rw [insertionsOf_of_lt hless]
        rw [List.filter_cons_of_pos (by simpa using hless)]
        rw [List.filter_cons_of_pos (by simpa using hless.le)] at hmore
        rw [List.length_cons, Nat.add_comm _ 1, ← Nat.add_assoc] at hmore ⊢
        exact ih (by omega) hmore
      · rw [insertionsOf_self, List.filter_cons_of_neg (by simp)]
        rw [List.filter_cons_of_pos (by simp)] at hmore
        rw [List.length_cons, Nat.add_comm _ 1, ← Nat.add_assoc] at hmore
        refine ⟨Nat.le_add_right _ _, horder, ?_⟩
        rw [Nat.add_right_comm]
        exact ih (.inr ⟨rfl, le_rfl⟩) hmore
      · rw [insertionsOf_of_gt hgreater, List.filter_cons_of_neg (by simpa using hgreater.le)]
        rw [List.filter_cons_of_neg (by simpa using hgreater)] at hmore
        exact ih horder hmore

/-! ## Characters that are inserted -/

theorem mem_addOrdered {c x : Char} {cs : List Char} : x ∈ addOrdered c cs ↔ x = c ∨ x ∈ cs := by
  induction cs with
  | nil => rw [addOrdered, List.mem_singleton, or_iff_left List.not_mem_nil]
  | cons y cs ih =>
      rw [addOrdered]
      split
      · rw [List.mem_cons]
      · split
        · next heq =>
          rw [heq, List.mem_cons]
          exact ⟨.inr, fun h => h.elim .inl id⟩
        · rw [List.mem_cons, ih, List.mem_cons, or_left_comm]

theorem pairwise_addOrdered {c : Char} {cs : List Char} (h : cs.Pairwise (· < ·)) :
    (addOrdered c cs).Pairwise (· < ·) := by
  induction cs with
  | nil => exact List.pairwise_singleton _ _
  | cons y cs ih =>
      obtain ⟨hy, hcs⟩ := List.pairwise_cons.1 h
      rw [addOrdered]
      split
      · next hless =>
        refine List.pairwise_cons.2 ⟨fun x hx => ?_, h⟩
        rcases List.mem_cons.1 hx with rfl | hx
        · exact hless
        · exact hless.trans (hy x hx)
      · next hle =>
        split
        · exact h
        · next hne =>
          refine List.pairwise_cons.2 ⟨fun x hx => ?_, ih hcs⟩
          rcases mem_addOrdered.1 hx with rfl | hx
          · exact lt_of_le_of_ne (not_lt.1 hle) fun heq => hne heq.symm
          · exact hy x hx

theorem mem_extended {text : List Char} {x : Char} :
    x ∈ extended text ↔ x ∈ text ∧ isBasic x = false := by
  have hfold (cs : List Char) : x ∈ cs.foldr addOrdered [] ↔ x ∈ cs := by
    induction cs with
    | nil => rfl
    | cons c cs ih => rw [List.foldr_cons, mem_addOrdered, ih, List.mem_cons]
  rw [extended, hfold, List.mem_filter, Bool.not_eq_true']

theorem pairwise_extended (text : List Char) : (extended text).Pairwise (· < ·) := by
  unfold extended
  induction text.filter (!isBasic ·) with
  | nil => exact .nil
  | cons c cs ih => exact pairwise_addOrdered ih

/-- Each character of a text is in a list or is less than all of the list. -/
def IsBelow (text cs : List Char) : Prop := ∀ x ∈ text, x ∈ cs ∨ ∀ c ∈ cs, x < c

section Below

variable {text cs : List Char} {c : Char} (hcs : (c :: cs).Pairwise (· < ·))
  (hall : IsBelow text (c :: cs))

include hcs hall

theorem IsBelow.tail : IsBelow text cs := by
  intro x hx
  rcases hall x hx with hmem | hless
  · rcases List.mem_cons.1 hmem with rfl | hmem
    · exact .inr (List.pairwise_cons.1 hcs).1
    · exact .inl hmem
  · exact .inr fun d hd => hless d (List.mem_cons_of_mem c hd)

/-- What is not in the list is what is less than its first character. -/
theorem IsBelow.filter_lt : text.filter (· ∉ c :: cs) = text.filter (· < c) := by
  refine List.filter_congr fun x hx => decide_eq_decide.2 ⟨fun hnot => ?_, fun hless hmem => ?_⟩
  · exact (hall x hx).resolve_left hnot c List.mem_cons_self
  · rcases List.mem_cons.1 hmem with rfl | hmem
    · exact lt_irrefl x hless
    · exact lt_asymm hless ((List.pairwise_cons.1 hcs).1 x hmem)

/-- What is not in the rest of the list is what is not greater than its first character. -/
theorem IsBelow.filter_le : text.filter (· ≤ c) = text.filter (· ∉ cs) := by
  refine List.filter_congr fun x hx => decide_eq_decide.2 ⟨fun hle hmem => ?_, fun hnot => ?_⟩
  · exact hle.not_gt ((List.pairwise_cons.1 hcs).1 x hmem)
  · rcases hall x hx with hmem | hless
    · rcases List.mem_cons.1 hmem with rfl | hmem
      · exact le_rfl
      · exact absurd hmem hnot
    · exact (hless c List.mem_cons_self).le

end Below

variable {text cs : List Char}

/-- Inserting the characters of a list, one after the other, gives the text. -/
theorem insertAll_flatMap (hcs : cs.Pairwise (· < ·)) (hall : IsBelow text cs) :
    insertAll (text.filter (· ∉ cs)) (cs.flatMap (insertionsOf · 0 text)) = text := by
  induction cs with
  | nil => simp [insertAll]
  | cons c cs ih =>
      have hfirst := insertAll_insertionsOf c [] text
      simp only [List.nil_append, List.length_nil] at hfirst
      rw [List.flatMap_cons, hall.filter_lt hcs, insertAll, List.foldl_append, ← insertAll,
        ← insertAll, hfirst, hall.filter_le hcs]
      exact ih (List.pairwise_cons.1 hcs).2 (hall.tail hcs)

theorem fits_flatMap (hcs : cs.Pairwise (· < ·)) (hall : IsBelow text cs) {number next : Nat}
    (hnumber : ∀ c ∈ cs, number < c.toNat ∨ number = c.toNat ∧ next = 0) :
    Fits number next (text.filter (· ∉ cs)).length (cs.flatMap (insertionsOf · 0 text)) := by
  induction cs generalizing number next with
  | nil => trivial
  | cons c cs ih =>
      obtain ⟨hc, hcs'⟩ := List.pairwise_cons.1 hcs
      have horder : number < c.toNat ∨ number = c.toNat ∧ next ≤ 0 :=
        (hnumber c List.mem_cons_self).imp_right fun h => ⟨h.1, h.2.le⟩
      have hfits : Fits number next (0 + (text.filter (· < c)).length)
          (insertionsOf c 0 text ++ cs.flatMap (insertionsOf · 0 text)) := by
        refine fits_insertionsOf horder fun number' next' hle => ?_
        rw [Nat.zero_add, hall.filter_le hcs]
        exact ih hcs' (hall.tail hcs) fun d hd => .inl (Nat.lt_of_le_of_lt hle (hc d hd))
      rwa [Nat.zero_add, ← hall.filter_lt hcs] at hfits

/-! ## Texts -/

theorem isBelow_extended (text : List Char) : IsBelow text (extended text) := by
  intro x hx
  cases hbasic : isBasic x with
  | false => exact .inl (mem_extended.2 ⟨hx, hbasic⟩)
  | true =>
      refine .inr fun c hc => ?_
      have hlow : x.toNat < 0x80 := by simpa [isBasic] using hbasic
      have hhigh : ¬c.toNat < 0x80 := by simpa [isBasic] using (mem_extended.1 hc).2
      exact (show x.toNat < c.toNat by omega)

theorem filter_isBasic (text : List Char) :
    text.filter isBasic = text.filter (· ∉ extended text) := by
  refine List.filter_congr fun x hx => ?_
  simp only [mem_extended, hx, true_and, Bool.not_eq_false, Bool.decide_eq_true]

theorem insertions_eq (text : List Char) :
    insertions text = (extended text).flatMap (insertionsOf · 0 text) := rfl

theorem fits_insertions (text : List Char) :
    Fits 0x80 0 (text.filter isBasic).length (insertions text) := by
  rw [filter_isBasic, insertions_eq]
  refine fits_flatMap (pairwise_extended text) (isBelow_extended text) fun c hc => ?_
  have hhigh : ¬c.toNat < 0x80 := by simpa [isBasic] using (mem_extended.1 hc).2
  omega

theorem insertAll_insertions (text : List Char) :
    insertAll (text.filter isBasic) (insertions text) = text := by
  rw [filter_isBasic, insertions_eq]
  exact insertAll_flatMap (pairwise_extended text) (isBelow_extended text)

/-! ## Bytes -/

/-- The bytes of insertions are those of digits. -/
theorem exists_digit_of_mem {s : Cursor} {length : Nat} {insertions : List (Char × Nat)} {b : UInt8}
    (h : b ∈ writeInsertions s length insertions) : ∃ d < 36, b = ofDigit d := by
  induction insertions generalizing s length with
  | nil => exact absurd h List.not_mem_nil
  | cons insertion rest ih =>
      obtain ⟨c, place⟩ := insertion
      rw [writeInsertions] at h
      rcases List.mem_append.1 h with h | h
      · obtain ⟨d, hd, rfl⟩ := List.mem_map.1 h
        exact ⟨d, lt_of_mem_digits hd, rfl⟩
      · exact ih h

theorem ofDigit_ne_hyphen {d : Nat} (h : d < 36) : ofDigit d ≠ hyphen := by
  have hall : ∀ d < 36, ofDigit d ≠ hyphen := by decide
  exact hall d h

theorem ofDigit_eq {d : Nat} (h : d < 36) :
    ∃ c, isBasic c = true ∧ ofDigit d = c.toNat.toUInt8 := by
  have hall : ∀ d < 36, isBasic (.ofNat (ofDigit d).toNat) = true ∧
      ofDigit d = (Char.ofNat (ofDigit d).toNat).toNat.toUInt8 := by decide
  exact ⟨_, hall d h⟩

/-- Characters of ASCII are decoded from their bytes. -/
theorem decode_ascii {text : List Char} (h : ∀ c ∈ text, isBasic c = true) :
    Encoding.ascii.codec.decode (text.map (·.toNat.toUInt8)) = .ok (String.ofList text) := by
  have hencode : Encoding.ascii.encode (String.ofList text) = .ok (text.map (·.toNat.toUInt8)) := by
    refine Encoding.encode_eq_ok_iff.2 ⟨fun c hc => ?_, ?_⟩
    · rw [String.toList_ofList] at hc
      exact h c hc
    · rw [String.toList_ofList]
      exact List.map_eq_flatMap
  exact Encoding.ascii.undoes_codec.decode_encode _ _
    (Encoding.codec_encode_eq_ok_iff.2 ⟨_, hencode, rfl⟩)

theorem exists_decode_ascii {bytes : Bytes} (h : ∀ b ∈ bytes, ∃ d < 36, b = ofDigit d) :
    ∃ text, Encoding.ascii.codec.decode bytes = .ok text := by
  have hchars : ∃ text : List Char, (∀ c ∈ text, isBasic c = true) ∧
      bytes = text.map (·.toNat.toUInt8) := by
    induction bytes with
    | nil => exact ⟨[], fun _ hc => absurd hc List.not_mem_nil, rfl⟩
    | cons b bytes ih =>
        obtain ⟨⟨d, hd, rfl⟩, hbytes⟩ := List.forall_mem_cons.1 h
        obtain ⟨text, hbasic, rfl⟩ := ih hbytes
        obtain ⟨c, hc, hbyte⟩ := ofDigit_eq hd
        exact ⟨c :: text, List.forall_mem_cons.2 ⟨hc, hbasic⟩, by rw [List.map_cons, hbyte]⟩
  obtain ⟨text, hbasic, rfl⟩ := hchars
  exact ⟨_, decode_ascii hbasic⟩

/-- Bytes are parted at the last hyphen; without one they are all behind it. -/
theorem part_eq (before : Bytes) {behind : Bytes} (h : hyphen ∉ behind) :
    let bytes := before ++ (if before = [] then [] else [hyphen]) ++ behind
    (bytes.reverse.takeWhile (· ≠ hyphen)).reverse = behind ∧
      ((bytes.reverse.dropWhile (· ≠ hyphen)).drop 1).reverse = before := by
  have hall : ∀ b ∈ behind.reverse, decide (b ≠ hyphen) = true := by
    intro b hb
    rw [List.mem_reverse] at hb
    exact decide_eq_true fun heq => h (heq ▸ hb)
  dsimp only
  rw [List.reverse_append, List.takeWhile_append_of_pos hall, List.dropWhile_append_of_pos hall]
  by_cases hbefore : before = []
  · subst hbefore
    simp
  · simp [hbefore]

theorem decode_of_parts {basic text : List Char} {behind : Bytes}
    (hbasic : ∀ c ∈ basic, isBasic c = true) (hbehind : ∀ b ∈ behind, ∃ d < 36, b = ofDigit d)
    (hread : readInsertions {} basic behind = .ok text) :
    decode (basic.map (·.toNat.toUInt8) ++ (if basic = [] then [] else [hyphen]) ++ behind) =
      .ok (String.ofList text) := by
  have hhyphen : hyphen ∉ behind := by
    intro hmem
    obtain ⟨d, hd, heq⟩ := hbehind _ hmem
    exact ofDigit_ne_hyphen hd heq.symm
  obtain ⟨hlast, hfirst⟩ := part_eq (basic.map (·.toNat.toUInt8)) hhyphen
  simp only [List.map_eq_nil_iff] at hlast hfirst
  obtain ⟨ending, hending⟩ := exists_decode_ascii hbehind
  unfold decode
  simp only [hlast, hfirst, decode_ascii hbasic, hending, bind, Except.bind, String.toList_ofList,
    hread, Except.map]

/-- Decoding undoes encoding. -/
theorem decode_encode (text : String) : decode (encode text) = .ok text := by
  have hread := readInsertions_writeInsertions (s := {}) (fits_insertions text.toList)
    (Nat.zero_le _)
  rw [insertAll_insertions] at hread
  have hdecode := decode_of_parts (fun c hc => (List.mem_filter.1 hc).2)
    (fun b hb => exists_digit_of_mem hb) hread
  rwa [String.ofList_toList] at hdecode

theorem undoes_codec : codec.Undoes where
  decode_encode text bytes h := by
    obtain rfl := Except.ok.inj h
    exact decode_encode text
  decode_nil := decode_encode ""

end Punycode

end BraceGrammar
