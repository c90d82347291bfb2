import BraceGrammar.Encoding.Decode
import BraceGrammar.Encoding.Encode

/-!
# Codecs

A codec has bytes for texts and texts for bytes.  A file is written text by text, and the bytes that
a text adds to it may depend on the texts before it; some codecs put a mark in front of the first.
A file is read at once.

An encoding that has bytes for each character is a codec (`Encoding.codec`).  Not every codec is one
of these, and two laws tell what may be expected of a codec: lines are encoded one after the other
as they are at once (`Codec.IsLinewise`), and decoding undoes encoding (`Codec.Undoes`).
-/

namespace BraceGrammar

/-- Why a text has no bytes, or bytes have no text. -/
structure Codec.Fault where
  /-- Whether the fault is at a place, which its message tells. -/
  located : Bool
  message : String
deriving DecidableEq

structure Codec where
  /-- The bytes that a text adds to a file, behind texts that are given in reverse. -/
  append : List String → String → Except Codec.Fault Bytes
  /-- The bytes of a text on its own. -/
  encode : String → Except Codec.Fault Bytes
  decode : Bytes → Except Codec.Fault String

namespace Codec

/-- The bytes that texts add to a file, one after the other. -/
def appendAll (c : Codec) (before : List String) : List String → Except Fault Bytes
  | [] => .ok []
  | text :: texts =>
    match c.append before text with
    | .error fault => .error fault
    | .ok bytes => (c.appendAll (text :: before) texts).map (bytes ++ ·)

/-- Lines have the same bytes one after the other as at once.  Without any line a file has no bytes,
also where a text without characters has some. -/
def IsLinewise (c : Codec) : Prop :=
  ∀ lines : List String, lines ≠ [] → (∀ line ∈ lines, line.toList.getLast? = some '\n') →
    ∀ bytes, c.appendAll [] lines = .ok bytes ↔ c.encode (String.join lines) = .ok bytes

/-- Decoding gives back what was encoded, and nothing where there are no bytes. -/
structure Undoes (c : Codec) : Prop where
  decode_encode : ∀ text bytes, c.encode text = .ok bytes → c.decode bytes = .ok text
  decode_nil : c.decode [] = .ok ""

end Codec

/-- Texts are encoded character by character, and the first one of a file comes with the opening. -/
def Encoding.codec (e : Encoding) : Codec where
  append before text :=
    ((e.encode text).mapError fun fault => ⟨true, fault.message⟩).map fun bytes =>
      if before = [] then e.opening ++ bytes else bytes
  encode text :=
    ((e.encode text).mapError fun fault => ⟨true, fault.message⟩).map fun bytes =>
      e.opening ++ bytes
  decode bytes := (e.decode bytes).mapError fun fault => ⟨true, fault.message⟩

end BraceGrammar
