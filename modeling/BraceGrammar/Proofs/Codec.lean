import BraceGrammar.Codec
import BraceGrammar.Proofs.Encoding

/-!
# The encodings as codecs

Each encoding that has bytes for characters obeys both laws of a codec.  Texts that are written one
after the other have the bytes of their concatenation, with the opening in front of the first
(`Encoding.codec_appendAll_eq_ok_iff`), and these are decoded to the concatenation.
-/

namespace BraceGrammar

/-! ## Steps that may fail -/

section Except

variable {ε ε' α β : Type} {x : Except ε α} {f : α → Except ε β} {k : ε → ε'} {b : β}
  {cause : ε}

theorem bind_eq_ok_iff : x >>= f = .ok b ↔ ∃ a, x = .ok a ∧ f a = .ok b := by
  cases x <;> simp [bind, Except.bind]

theorem bind_eq_error_iff :
    x >>= f = .error cause ↔ x = .error cause ∨ ∃ a, x = .ok a ∧ f a = .error cause := by
  cases x <;> simp [bind, Except.bind]

theorem map_eq_ok_iff {f : α → β} : x.map f = .ok b ↔ ∃ a, x = .ok a ∧ f a = b := by
  cases x <;> simp [Except.map]

theorem mapError_eq_ok_iff {a : α} : x.mapError k = .ok a ↔ x = .ok a := by
  cases x with
  | ok a' =>
      constructor <;>
        (intro h
         cases h
         rfl)
  | error e =>
      constructor <;>
        (intro h
         cases h)

theorem mapError_eq_error_iff {cause : ε'} :
    x.mapError k = .error cause ↔ ∃ e, x = .error e ∧ k e = cause := by
  cases x with
  | ok a =>
      constructor
      · intro h
        cases h
      · rintro ⟨e, he, -⟩
        cases he
  | error e =>
      constructor
      · intro h
        exact ⟨e, rfl, Except.error.inj h⟩
      · rintro ⟨e', he, rfl⟩
        cases he
        rfl

end Except

/-! ## Texts one after the other -/

namespace Codec

variable {c : Codec} {before texts : List String} {text : String} {bytes : Bytes}

theorem appendAll_cons_eq_ok_iff : c.appendAll before (text :: texts) = .ok bytes ↔
    ∃ first others, c.append before text = .ok first ∧
      c.appendAll (text :: before) texts = .ok others ∧ bytes = first ++ others := by
  rw [appendAll]
  cases c.append before text with
  | error fault => simp
  | ok first =>
      cases c.appendAll (text :: before) texts with
      | error fault => simp [Except.map]
      | ok others => simp [Except.map, eq_comm]

theorem appendAll_concat {others : Bytes} (h : c.appendAll before texts = .ok bytes)
    (htext : c.append (texts.reverse ++ before) text = .ok others) :
    c.appendAll before (texts ++ [text]) = .ok (bytes ++ others) := by
  induction texts generalizing before bytes with
  | nil =>
      obtain rfl := Except.ok.inj h
      exact appendAll_cons_eq_ok_iff.2 ⟨others, [], htext, rfl, (List.append_nil _).symm⟩
  | cons first texts ih =>
      obtain ⟨xs, ys, hfirst, hmore, rfl⟩ := appendAll_cons_eq_ok_iff.1 h
      rw [List.reverse_cons, List.append_assoc] at htext
      exact appendAll_cons_eq_ok_iff.2
        ⟨xs, ys ++ others, hfirst, ih hmore htext, List.append_assoc _ _ _⟩

end Codec

/-! ## Encodings -/

namespace Encoding

variable {e : Encoding} {before texts : List String} {text : String} {bytes : Bytes}

theorem codec_append_eq_ok_iff : e.codec.append before text = .ok bytes ↔
    ∃ own, e.encode text = .ok own ∧ (if before = [] then e.opening ++ own else own) = bytes := by
  simp only [codec, map_eq_ok_iff, mapError_eq_ok_iff]

theorem codec_encode_eq_ok_iff : e.codec.encode text = .ok bytes ↔
    ∃ own, e.encode text = .ok own ∧ e.opening ++ own = bytes := by
  simp only [codec, map_eq_ok_iff, mapError_eq_ok_iff]

theorem codec_decode_eq_ok_iff : e.codec.decode bytes = .ok text ↔ e.decode bytes = .ok text :=
  mapError_eq_ok_iff

theorem located_of_codec_decode {fault : Codec.Fault}
    (h : e.codec.decode bytes = .error fault) : fault.located = true := by
  obtain ⟨_, -, rfl⟩ := mapError_eq_error_iff.1 h
  rfl

/-- Texts behind others have the bytes of their concatenation. -/
theorem codec_appendAll_behind (hbefore : before ≠ []) :
    e.codec.appendAll before texts = .ok bytes ↔ e.encode (String.join texts) = .ok bytes := by
  induction texts generalizing before bytes with
  | nil =>
      rw [Codec.appendAll, String.join_nil, encode_empty, Except.ok.injEq, Except.ok.injEq]
  | cons text texts ih =>
      simp only [Codec.appendAll_cons_eq_ok_iff, codec_append_eq_ok_iff, if_neg hbefore,
        ih (List.cons_ne_nil text before), String.join_cons, encode_append_eq_ok_iff,
        exists_eq_right]

/-- The first texts of a file have the bytes of their concatenation behind the opening, unless there
are none. -/
theorem codec_appendAll_eq_ok_iff : e.codec.appendAll [] texts = .ok bytes ↔
    ∃ own, e.encode (String.join texts) = .ok own ∧
      bytes = if texts = [] then [] else e.opening ++ own := by
  cases texts with
  | nil =>
      simp only [Codec.appendAll, String.join_nil, encode_empty, Except.ok.injEq, if_true]
      exact ⟨fun h => ⟨[], rfl, h.symm⟩, fun ⟨_, _, h⟩ => h.symm⟩
  | cons text texts =>
      simp only [Codec.appendAll_cons_eq_ok_iff, codec_append_eq_ok_iff, if_true,
        codec_appendAll_behind (List.cons_ne_nil text []), String.join_cons,
        encode_append_eq_ok_iff, reduceCtorEq, if_false]
      constructor
      · rintro ⟨_, ys, ⟨xs, hxs, rfl⟩, hys, rfl⟩
        exact ⟨xs ++ ys, ⟨xs, ys, hxs, hys, rfl⟩, List.append_assoc _ _ _⟩
      · rintro ⟨_, ⟨xs, ys, hxs, hys, rfl⟩, rfl⟩
        exact ⟨e.opening ++ xs, ys, ⟨xs, hxs, rfl⟩, hys, (List.append_assoc _ _ _).symm⟩

theorem isLinewise_codec (e : Encoding) : e.codec.IsLinewise := by
  intro lines hlines _ bytes
  simp only [codec_appendAll_eq_ok_iff, codec_encode_eq_ok_iff, if_neg hlines]
  exact exists_congr fun own => and_congr_right fun _ => eq_comm

theorem undoes_codec (e : Encoding) : e.codec.Undoes where
  decode_encode text bytes h := by
    obtain ⟨own, hown, rfl⟩ := codec_encode_eq_ok_iff.1 h
    exact codec_decode_eq_ok_iff.2 (decode_of_encode hown)
  decode_nil := codec_decode_eq_ok_iff.2 e.decode_nil

end Encoding

end BraceGrammar
