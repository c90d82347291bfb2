import BraceGrammar.Encoding.Decode
import BraceGrammar.Encoding.Encode

/-!
# Encoding and decoding

A text has bytes in an encoding when the encoding has all its characters (`encode_eq_ok_iff`).
Decoding these bytes gives the text back, also after what comes in front of the first text of a file
(`decode_of_encode`): what stands in front of the bytes of a character and any bytes after them is
the character (`exists_bytes_of_has`).  In UTF-8 a character has one to four bytes, of which all but
the first have six bits of it each, and in UTF-16 one or two units of two bytes.
-/

namespace BraceGrammar

namespace Encoding

/-! ## Encoding a text -/

variable {e : Encoding}

/-- A text is encoded character by character when the encoding has all its characters. -/
theorem encode_eq_ok_iff {text : String} {bytes : Bytes} :
    e.encode text = .ok bytes ↔
      (∀ c ∈ text.toList, e.has c = true) ∧ bytes = text.toList.flatMap e.encodeChar := by
  unfold encode
  dsimp only
  cases hrest : text.toList.dropWhile e.has with
  | nil =>
      have hgood : text.toList.takeWhile e.has = text.toList := by
        have hsplit := List.takeWhile_append_dropWhile (p := e.has) (l := text.toList)
        rwa [hrest, List.append_nil] at hsplit
      have hall : ∀ c ∈ text.toList, e.has c = true := by
        intro c hc
        rw [← hgood] at hc
        exact List.all_eq_true.1 List.all_takeWhile c hc
      rw [hgood, Except.ok.injEq]
      constructor
      · rintro rfl
        exact ⟨hall, rfl⟩
      · rintro ⟨-, rfl⟩
        rfl
  | cons c rest =>
      have hmem : c ∈ text.toList := List.dropWhile_subset _ (hrest ▸ List.mem_cons_self)
      have hbad : e.has c = false := by
        have hhead := List.head?_dropWhile_not e.has text.toList
        rw [hrest] at hhead
        simpa using hhead
      constructor
      · intro h
        cases h
      · rintro ⟨hall, -⟩
        rw [hall c hmem] at hbad
        cases hbad

theorem encode_empty (e : Encoding) : e.encode "" = .ok [] :=
  encode_eq_ok_iff.2 ⟨fun _ hc => absurd hc List.not_mem_nil, rfl⟩

theorem encode_append_eq_ok_iff {s t : String} {bytes : Bytes} :
    e.encode (s ++ t) = .ok bytes ↔
      ∃ xs ys, e.encode s = .ok xs ∧ e.encode t = .ok ys ∧ bytes = xs ++ ys := by
  simp only [encode_eq_ok_iff, String.toList_append, List.forall_mem_append, List.flatMap_append]
  constructor
  · rintro ⟨⟨hs, ht⟩, rfl⟩
    exact ⟨_, _, ⟨hs, rfl⟩, ⟨ht, rfl⟩, rfl⟩
  · rintro ⟨_, _, ⟨hs, rfl⟩, ⟨ht, rfl⟩, rfl⟩
    exact ⟨⟨hs, ht⟩, rfl⟩

/-! ## Bytes that go on with a character -/

/-- The byte for the lowest six bits of a number. -/
def lowBits (n : Nat) : UInt8 := .ofNat (n % 64 + 128)

theorem toNat_lowBits (n : Nat) : (lowBits n).toNat = n % 64 + 128 :=
  UInt8.toNat_ofNat_of_lt (show n % 64 + 128 < 256 by omega)

theorem isContinuation_lowBits (n : Nat) : isContinuation (lowBits n) = true := by
  have hn := toNat_lowBits n
  simp only [isContinuation, Bool.and_eq_true, decide_eq_true_iff, UInt8.le_iff_toNat_le,
    UInt8.lt_iff_toNat_lt, UInt8.reduceToNat]
  omega

theorem addBits_lowBits (high n : Nat) : addBits high (lowBits n) = high * 64 + n % 64 := by
  rw [addBits, toNat_lowBits]
  omega

theorem continueUtf8_lowBits (high taken missing n : Nat) (rest : Bytes) :
    continueUtf8 high taken (missing + 1) (lowBits n :: rest) =
      continueUtf8 (high * 64 + n % 64) (taken + 1) missing rest := by
  rw [continueUtf8, if_pos (isContinuation_lowBits n), addBits_lowBits]

/-- A second byte is good unless the character would be one that fewer bytes are for, half of a pair,
or beyond the last one. -/
theorem longUtf8_lowBits {b : UInt8} {n : Nat}
    (h : ¬((b.toNat = 0xE0 ∧ n % 64 < 32) ∨ (b.toNat = 0xED ∧ 32 ≤ n % 64) ∨
      (b.toNat = 0xF0 ∧ n % 64 < 16) ∨ (b.toNat = 0xF4 ∧ 16 ≤ n % 64)))
    (high missing : Nat) (rest : Bytes) :
    longUtf8 b high missing (lowBits n :: rest) =
      continueUtf8 (high * 64 + n % 64) 1 missing rest := by
  have hsecond : isSecond b (lowBits n) = true := by
    have hn := toNat_lowBits n
    simp only [isSecond, isContinuation_lowBits, Bool.true_and, Bool.not_eq_true',
      Bool.or_eq_false_iff, Bool.and_eq_false_iff, decide_eq_false_iff_not, ← UInt8.toNat_inj,
      UInt8.le_iff_toNat_le, UInt8.lt_iff_toNat_lt, UInt8.reduceToNat]
    omega
  rw [longUtf8, if_pos hsecond, addBits_lowBits]

/-! ## Characters -/

theorem frontUtf8_eq (b : UInt8) (rest : Bytes) :
    frontUtf8 b rest =
      if b.toNat < 0x80 then .char (.ofNat b.toNat) 0
      else if b.toNat < 0xC2 then .fault .startByte 0
      else if b.toNat < 0xE0 then longUtf8 b (b.toNat - 0xC0) 0 rest
      else if b.toNat < 0xF0 then longUtf8 b (b.toNat - 0xE0) 1 rest
      else if b.toNat < 0xF5 then longUtf8 b (b.toNat - 0xF0) 2 rest
      else .fault .startByte 0 := by
  simp only [frontUtf8, UInt8.lt_iff_toNat_lt, UInt8.reduceToNat]

/-- What stands in front of the bytes of a character is the character, whatever comes after. -/
theorem exists_bytes_of_char (c : Char) : ∃ b more, String.utf8EncodeChar c = b :: more ∧
    ∀ rest, frontUtf8 b (more ++ rest) = .char c more.length := by
  obtain ⟨v, hv⟩ : ∃ v, v = c.val.toNat := ⟨_, rfl⟩
  have hvalid : v < 0xD800 ∨ 0xDFFF < v ∧ v < 0x110000 := hv ▸ c.valid
  have hc : ∀ n, n = v → Char.ofNat n = c := by
    rintro n rfl
    rw [hv]
    exact Char.ofNat_toNat c
  have hlead : ∀ n, n < 256 → (UInt8.ofNat n).toNat = n := fun n hn => UInt8.toNat_ofNat_of_lt hn
  -- the cases are the numbers of bytes; the first byte says which of them it is
  rw [String.utf8EncodeChar.eq_1, ← hv]
  by_cases h1 : v ≤ 127
  · refine ⟨_, _, if_pos h1, fun rest => ?_⟩
    have hb := hlead v (by omega)
    rw [frontUtf8_eq, hb, if_pos (by omega), hc v rfl]
    rfl
  rw [if_neg h1]
  by_cases h2 : v ≤ 0x7ff
  · refine ⟨_, [lowBits v], if_pos h2, fun rest => ?_⟩
    have hb := hlead (v / 64 % 32 + 192) (by omega)
    rw [frontUtf8_eq, hb, if_neg (by omega), if_neg (by omega), if_pos (by omega),
      List.singleton_append, longUtf8_lowBits (by rw [hb]; omega), continueUtf8, hc _ (by omega)]
    rfl
  rw [if_neg h2]
  by_cases h3 : v ≤ 0xffff
  · refine ⟨_, [lowBits (v / 64), lowBits v], if_pos h3, fun rest => ?_⟩
    have hb := hlead (v / 4096 % 16 + 224) (by omega)
    rw [frontUtf8_eq, hb, if_neg (by omega), if_neg (by omega), if_neg (by omega),
      if_pos (by omega), List.cons_append, List.singleton_append,
      longUtf8_lowBits (by rw [hb]; omega), continueUtf8_lowBits, continueUtf8, hc _ (by omega)]
    rfl
  · refine ⟨_, [lowBits (v / 4096), lowBits (v / 64), lowBits v], if_neg h3, fun rest => ?_⟩
    have hb := hlead (v / 262144 % 8 + 240) (by omega)
    rw [frontUtf8_eq, hb, if_neg (by omega), if_neg (by omega), if_neg (by omega),
      if_neg (by omega), if_pos (by omega), List.cons_append, List.cons_append,
      List.singleton_append, longUtf8_lowBits (by rw [hb]; omega), continueUtf8_lowBits,
      continueUtf8_lowBits, continueUtf8, hc _ (by omega)]
    rfl

/-- The same in UTF-16, in either order of the two bytes of a unit. -/
theorem exists_bytes_of_units {unit : UInt8 → UInt8 → Nat} {first second : Nat → UInt8}
    (hunit : ∀ u < 0x10000, unit (first u) (second u) = u) (c : Char) :
    ∃ b more, ((units c).flatMap fun u => [first u, second u]) = b :: more ∧
      ∀ rest, frontUtf16 unit b (more ++ rest) = .char c more.length := by
  have hvalid : c.toNat < 0xD800 ∨ 0xDFFF < c.toNat ∧ c.toNat < 0x110000 := c.valid
  have hc : ∀ n, n = c.toNat → Char.ofNat n = c := by
    rintro n rfl
    exact Char.ofNat_toNat c
  by_cases hone : c.toNat < 0x10000
  · refine ⟨first c.toNat, [second c.toNat], by simp [units, hone], fun rest => ?_⟩
    simp only [List.singleton_append, frontUtf16, hunit _ hone]
    rw [if_pos (by omega), hc _ rfl]
    rfl
  · obtain ⟨u, hu⟩ : ∃ u, u = 0xD800 + (c.toNat - 0x10000) / 0x400 := ⟨_, rfl⟩
    obtain ⟨v, hv⟩ : ∃ v, v = 0xDC00 + (c.toNat - 0x10000) % 0x400 := ⟨_, rfl⟩
    refine ⟨first u, [second u, first v, second v], by simp [units, hone, hu, hv],
      fun rest => ?_⟩
    simp only [List.cons_append, List.nil_append, frontUtf16, hunit u (by omega),
      hunit v (by omega)]
    rw [if_neg (by omega), if_neg (by omega), if_pos (by omega), hc _ (by omega)]
    rfl

/-- A character of a small range is the number of its byte. -/
theorem ofNat_toNat_toUInt8 {c : Char} (h : c.toNat < 256) :
    Char.ofNat c.toNat.toUInt8.toNat = c := by
  have hbyte : c.toNat.toUInt8.toNat = c.toNat := UInt8.toNat_ofNat_of_lt h
  rw [hbyte, Char.ofNat_toNat]

/-- A unit is put together again from its two bytes. -/
theorem toNat_toUInt8_add {u : Nat} (hu : u < 0x10000) :
    u.toUInt8.toNat + (u / 256).toUInt8.toNat * 256 = u := by
  have hlow : u.toUInt8.toNat = u % 256 := UInt8.toNat_ofNat'
  have hhigh : (u / 256).toUInt8.toNat = u / 256 :=
    UInt8.toNat_ofNat_of_lt (show u / 256 < 256 by omega)
  omega

/-- What stands in front of the bytes of a character that an encoding has. -/
theorem exists_bytes_of_has {c : Char} (h : e.has c = true) : ∃ b more, e.encodeChar c = b :: more ∧
    ∀ rest, e.front b (more ++ rest) = .char c more.length := by
  cases e with
  | utf8 => exact exists_bytes_of_char c
  | utf8Signed => exact exists_bytes_of_char c
  | latin1 =>
      have hc : c.toNat < 256 := by simpa [has, size?] using h
      refine ⟨c.toNat.toUInt8, [], rfl, fun rest => ?_⟩
      rw [front, ofNat_toNat_toUInt8 hc]
      rfl
  | ascii =>
      have hc : c.toNat < 128 := by simpa [has, size?] using h
      have hbyte : c.toNat.toUInt8 < 0x80 := by
        rw [UInt8.lt_iff_toNat_lt]
        exact lt_of_eq_of_lt (UInt8.toNat_ofNat_of_lt (show c.toNat < 256 by omega)) hc
      refine ⟨c.toNat.toUInt8, [], rfl, fun rest => ?_⟩
      rw [front, if_pos hbyte, ofNat_toNat_toUInt8 (by omega)]
      rfl
  | utf16Little => exact exists_bytes_of_units (fun u hu => toNat_toUInt8_add hu) c
  | utf16Big =>
      exact exists_bytes_of_units (fun u hu => (Nat.add_comm _ _).trans (toNat_toUInt8_add hu)) c

/-! ## Texts -/

theorem decodeFrom_flatMap {text : List Char} (h : ∀ c ∈ text, e.has c = true) (place : Nat)
    (before : List Char) :
    e.decodeFrom place before (text.flatMap e.encodeChar) = .ok (before.reverse ++ text) := by
  induction text generalizing place before with
  | nil => rw [List.flatMap_nil, decodeFrom, List.append_nil]
  | cons c text ih =>
      obtain ⟨hc, htext⟩ := List.forall_mem_cons.1 h
      obtain ⟨b, more, hbytes, hfront⟩ := exists_bytes_of_has hc
      rw [List.flatMap_cons, hbytes, List.cons_append, decodeFrom, hfront]
      dsimp only
      rw [List.drop_left, ih htext, List.reverse_cons, List.append_assoc, List.singleton_append]

theorem withoutSignature_append (bytes : Bytes) : withoutSignature (signature ++ bytes) = bytes := by
  unfold withoutSignature
  split
  · next hshort =>
    have hlength := (List.isPrefixOf_iff_prefix.1 hshort).length_le
    rw [List.length_append] at hlength
    exact (List.length_eq_zero_iff.1 (by omega)).symm
  · rw [if_pos (List.isPrefixOf_iff_prefix.2 (List.prefix_append _ _)), List.drop_left]

/-- The bytes of a text are the text, also as the first ones of a file. -/
theorem decode_of_encode {text : String} {bytes : Bytes} (h : e.encode text = .ok bytes) :
    e.decode (e.opening ++ bytes) = .ok text := by
  obtain ⟨hall, rfl⟩ := encode_eq_ok_iff.1 h
  have hbytes : (if e = .utf8Signed then
      withoutSignature (e.opening ++ text.toList.flatMap e.encodeChar)
      else e.opening ++ text.toList.flatMap e.encodeChar) = text.toList.flatMap e.encodeChar := by
    cases e
    case utf8Signed => exact withoutSignature_append _
    all_goals rfl
  rw [decode, hbytes, decodeFrom_flatMap hall, List.reverse_nil, List.nil_append]
  exact congrArg Except.ok String.ofList_toList

/-- A file without bytes has an empty text. -/
theorem decode_nil (e : Encoding) : e.decode [] = .ok "" := by
  have hbytes : (if e = .utf8Signed then withoutSignature [] else []) = [] := ite_self _
  rw [decode, hbytes, decodeFrom]
  rfl

theorem decode_of_encode_utf8 {text : String} {content : Bytes}
    (h : utf8.encode text = .ok content) : utf8.decode content = .ok text :=
  decode_of_encode h

/-- Bytes of one half are characters as they are. -/
theorem decodeFrom_utf8_of_lt {bytes : Bytes} (h : bytes.all (· < 0x80)) (place : Nat)
    (before : List Char) : Encoding.utf8.decodeFrom place before bytes =
      .ok (before.reverse ++ bytes.map fun b => .ofNat b.toNat) := by
  induction bytes generalizing place before with
  | nil => rw [decodeFrom, List.map_nil, List.append_nil]
  | cons b bytes ih =>
      rw [List.all_cons, Bool.and_eq_true, decide_eq_true_iff] at h
      obtain ⟨hb, hbytes⟩ := h
      rw [decodeFrom, front, frontUtf8, if_pos hb]
      dsimp only
      rw [List.drop_zero, ih hbytes, List.reverse_cons, List.append_assoc, List.map_cons,
        List.singleton_append]

theorem decode_utf8_of_lt {bytes : Bytes} (h : bytes.all (· < 0x80)) :
    Encoding.utf8.decode bytes = .ok (String.ofList (bytes.map fun b => .ofNat b.toNat)) := by
  rw [decode, if_neg (by decide), decodeFrom_utf8_of_lt h, List.reverse_nil, List.nil_append]
  rfl

end Encoding

end BraceGrammar
