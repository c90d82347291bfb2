import BraceGrammar.Codec.Punycode
import BraceGrammar.Fault
import BraceGrammar.Grammar.Parser
import BraceGrammar.SentenceStream
import BraceGrammar.Text.LineEnd

/-!
# Grammar files and sentence files

`readText` gives the text of a file with all line ends unified, `loadGrammar` the grammar that it
declares.  `write` puts one sentence on each line of a file.  The lines go to a file with a name of
its own first, which takes the place of the target when the last line is written; whatever fails
before that leaves every file as it was.
-/

namespace BraceGrammar

/-! ## Reading -/

/-- The codec that a name stands for, among those that are defined here.  Reading and writing go by
what a name was found to be, whichever codec it is. -/
def findCodec (name : String) : Except Fault Codec :=
  if name.toList.contains '\x00' then .error .zeroInEncoding
  else
    match Encoding.ofName? name with
    | some e => .ok e.codec
    | none =>
      if Encoding.plainName name = Punycode.name then .ok Punycode.codec
      else .error (.unknownEncoding name)

/-- The text of a file.  That there is no such file is found out before the codec is asked for, and
bytes that have no text are the file's fault if the codec says at which place. -/
def readText (t : FileTree) (path : String) (codec : Except Fault Codec) : Except Fault String :=
  match t.content? (t.path path) with
  | none => .error (.unreadable path (some "no such file"))
  | some content =>
    match codec with
    | .error fault => .error fault
    | .ok c =>
      match c.decode content with
      | .error fault =>
        if fault.located then .error (.unreadable path (some fault.message))
        else .error (.unencodable fault)
      | .ok text => .ok (String.ofList (Text.unifyLineEnds text.toList))

def loadGrammar (t : FileTree) (path : String) (codec : Except Fault Codec) :
    Except Fault Grammar :=
  (readText t path codec).map Grammar.ofSource

namespace SentenceFile

/-! ## Supplies of sentences -/

/-- What a supply gives when it is asked for a sentence, and what is left of it. -/
inductive Supplied (τ : Type)
  | sentence (text : String) (rest : τ)
  | fault (cause : Fault) (rest : τ)
  | over (rest : τ)

/-- A list supplies its members in order. -/
def ofList : List String → Option (Supplied (List String))
  | [] => some (.over [])
  | text :: rest => some (.sentence text rest)

/-- A stream with its source supplies the sentences of the stream. -/
def ofStream {σ : Type} (T : Table) (ask : Nat → σ → Int × σ) (fuel : Nat) :
    SentenceStream × σ → Option (Supplied (SentenceStream × σ)) :=
  fun (s, source) => (s.next T ask fuel source).map fun (item, rest) =>
    match item with
    | .sentence text => .sentence text rest
    | .failure cause => .fault (.derivation cause) rest
    | .over => .over rest

/-! ## Lines -/

/-- A sentence without the blanks at its end, and a line feed. -/
def line (text : String) : String :=
  String.ofList ((text.toList.reverse.dropWhile (· = ' ')).reverse ++ ['\n'])

/-- The lines written so far and the bytes that they are, both in reverse. -/
structure Draft where
  lines : List String := []
  reversed : Bytes := []

/-- A draft with one line more. -/
def Draft.add (d : Draft) (c : Codec) (text : String) : Except Codec.Fault Draft :=
  (c.append d.lines (line text)).map fun bytes =>
    ⟨line text :: d.lines, bytes.reverse ++ d.reversed⟩

/-- The content of the file that a draft becomes. -/
def Draft.content (d : Draft) : Bytes := d.reversed.reverse

/-- Drafts all sentences of a supply, of which there are less than the number given.  The supply is
left where the drafting ended, after the sentence that it failed at if it did. -/
def draft {τ : Type} (ask : τ → Option (Supplied τ)) (c : Codec) :
    Nat → Draft → τ → Option (Except Fault Draft × τ)
  | 0, _, _ => none
  | bound + 1, d, supply =>
    match ask supply with
    | none => none
    | some (.over rest) => some (.ok d, rest)
    | some (.fault cause rest) => some (.error cause, rest)
    | some (.sentence text rest) =>
      match d.add c text with
      | .error fault => some (.error (.unencodable fault), rest)
      | .ok d => draft ask c bound d rest

/-! ## Writing -/

/-- What writing comes to: the number of lines or the fault, the tree, and what is left of the
supply. -/
structure Written (τ : Type) where
  result : Except Fault Nat
  tree : FileTree
  rest : τ

/-- The length of the name of a file that is written aside, in bytes. -/
def asideNameLength : Nat := 23

/-- Writes all sentences of a supply, of which there are less than the bound. -/
def write {τ : Type} (ask : τ → Option (Supplied τ)) (bound : Nat) (t : FileTree) (path : String)
    (codec : Except Fault Codec) (supply : τ) : Option (Written τ) :=
  let target := t.path path
  match target.parent?.elim (t, none) t.makeDirectories with
  | (t, some fault) => some ⟨.error (.path fault), t, supply⟩
  | (t, none) =>
    match target.parent?.elim (.ok t.home) fun p => t.walk p.start p.names with
    | .error fault => some ⟨.error (.path fault), t, supply⟩
    | .ok directory =>
      if !directory.hasRoom asideNameLength then
        some ⟨.error (.path .nameTooLong), t, supply⟩
      else
        match t.refusal? directory, codec with
        | some fault, _ => some ⟨.error (.path fault), t, supply⟩
        | none, .error fault => some ⟨.error fault, t, supply⟩
        | none, .ok c =>
          let aside := directory.child t.unusedName
          (draft ask c bound {} supply).map fun
            | (.error fault, rest) => ⟨.error fault, (t.put aside (.file [])).remove aside, rest⟩
            | (.ok d, rest) =>
              let drafted := t.put aside (.file d.content)
              match drafted.rename aside target with
              | .error fault => ⟨.error (.path fault), drafted.remove aside, rest⟩
              | .ok t => ⟨.ok d.lines.length, t, rest⟩

def writeList (t : FileTree) (path : String) (codec : Except Fault Codec)
    (sentences : List String) : Option (Written (List String)) :=
  write ofList (sentences.length + 1) t path codec sentences

def writeStream {σ : Type} (T : Table) (ask : Nat → σ → Int × σ) (fuel : Nat) (t : FileTree)
    (path : String) (codec : Except Fault Codec) (s : SentenceStream) (source : σ) :
    Option (Written (SentenceStream × σ)) :=
  write (ofStream T ask fuel) (s.remaining + 1) t path codec (s, source)

end SentenceFile

end BraceGrammar
