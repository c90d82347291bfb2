/-!
# Encodings

The character encodings that files are read and written in, and the many names they go by.  Names
are compared without regard to case and to what separates their letters and digits.
-/

namespace BraceGrammar

inductive Encoding
  | utf8
  /-- UTF-8 with a byte order mark in front. -/
  | utf8Signed
  | latin1
  | ascii
  | utf16Little
  | utf16Big
deriving DecidableEq, Inhabited

abbrev Bytes := List UInt8

namespace Encoding

/-- Letters and digits in lower case, everything between two of them as one underscore. -/
def plainName (name : String) : String :=
  let pieces := name.toList.splitOnP fun c => !(c.isAlphanum || c = '.')
  let pieces := (pieces.filter (· ≠ [])).map (·.map Char.toLower)
  String.ofList (['_'].intercalate pieces)

def ownName : Encoding → String
  | .utf8 => "utf_8"
  | .utf8Signed => "utf_8_sig"
  | .latin1 => "latin_1"
  | .ascii => "ascii"
  | .utf16Little => "utf_16_le"
  | .utf16Big => "utf_16_be"

/-- The other plain names of an encoding, in which a dot may stand for an underscore. -/
def aliases : Encoding → List String
  | .utf8 => ["u8", "utf", "utf8", "utf8_ucs2", "utf8_ucs4", "cp65001"]
  | .utf8Signed => []
  | .latin1 =>
    ["8859", "cp819", "csisolatin1", "ibm819", "iso8859", "iso8859_1", "iso_8859_1",
      "iso_8859_1_1987", "iso_ir_100", "l1", "latin", "latin1"]
  | .ascii =>
    ["646", "ansi_x3.4_1968", "ansi_x3_4_1968", "ansi_x3.4_1986", "cp367", "csascii", "ibm367",
      "iso646_us", "iso_646.irv_1991", "iso_ir_6", "us", "us_ascii"]
  | .utf16Little => ["utf_16le", "unicodelittleunmarked"]
  | .utf16Big => ["utf_16be", "unicodebigunmarked"]

def all : List Encoding := [.utf8, .utf8Signed, .latin1, .ascii, .utf16Little, .utf16Big]

def ofName? (name : String) : Option Encoding :=
  let name := plainName name
  let undotted := name.map fun c => if c = '.' then '_' else c
  all.find? fun e => e.ownName == name || e.aliases.contains name || e.aliases.contains undotted

/-- The byte order mark of UTF-8. -/
def signature : Bytes := [0xEF, 0xBB, 0xBF]

/-- What an encoding is called in messages. -/
def shownName : Encoding → String
  | .utf8 | .utf8Signed => "utf-8"
  | .latin1 => "latin-1"
  | .ascii => "ascii"
  | .utf16Little => "utf-16-le"
  | .utf16Big => "utf-16-be"

end Encoding

end BraceGrammar
