import BraceGrammar.Choice.Source
import BraceGrammar.Codec
import BraceGrammar.FileTree
import BraceGrammar.SentenceStream
import BraceGrammar.Text.Template

/-!
# Faults

Whatever can go wrong, in one type: each module has its own faults, and operations that use several
modules report theirs here.  A fault belongs to one or more families; those of the family `grammar`
are about a grammar or its file, and the programs answer them with a message.
-/

namespace BraceGrammar

/-- Settings of programs that may have been given nothing for a value. -/
inductive BlankSetting
  | grammarFile
  | output
  | count
  | seed
  | limit
deriving DecidableEq

def BlankSetting.message : BlankSetting → String
  | .grammarFile => "stat: path should be string, bytes, os.PathLike or integer, not list"
  | .output => "expected str, bytes or os.PathLike object, not list"
  | .count => "'list' object cannot be interpreted as an integer"
  | .seed => "The only supported seed types are: None,\nint, float, str, bytes, and bytearray."
  | .limit => "'>' not supported between instances of 'int' and 'list'"

inductive Fault
  /-- Something about a grammar that no other case is for. -/
  | general (wording : String)
  /-- There is no symbol to start from. -/
  | noStart (wording : String)
  | noProductions
  | derivation (failure : Derivation.Failure)
  /-- There are too many sentences for a display of progress. -/
  | tooManySentences
  | unreadable (file : String) (reason? : Option String)
  | missing (entry : MissingEntry)
  | choice (fault : Choice.Fault)
  | unknownEncoding (name : String)
  /-- The name of an encoding holds a character zero. -/
  | zeroInEncoding
  /-- A codec has no bytes for a text, or no text for bytes. -/
  | unencodable (fault : Codec.Fault)
  | path (fault : FileTree.Fault)
  | template (fault : Text.Template.Fault)
  /-- A setting without a value is used. -/
  | blank (setting : BlankSetting)
  | unbound (name : String)
deriving DecidableEq

namespace Fault

/-- Families that faults belong to. -/
inductive Family
  | grammar
  | system
  | value
  | lookup
  | running
deriving DecidableEq

def ofLack : Grammar.Lack → Fault
  | .start => .noStart Grammar.Lack.start.message
  | .productions => .noProductions

def ofRefusal : SentenceStream.Refusal → Fault
  | .lack cause => ofLack cause
  | .count => .tooManySentences

def families : Fault → List Family
  | .general _ => [.grammar]
  | .noStart _ => [.grammar, .value]
  | .noProductions => [.value]
  | .derivation (.undefined _) => [.grammar, .lookup]
  | .derivation (.limit _) => [.grammar, .running]
  | .derivation (.outOfRange ..) => [.value]
  | .tooManySentences => []
  | .unreadable .. => [.grammar, .system]
  | .missing _ => [.lookup]
  | .choice _ => [.value]
  | .unknownEncoding _ => [.lookup]
  | .zeroInEncoding => [.value]
  | .unencodable _ => [.value]
  | .path .zeroByte => [.value]
  | .path .tooDeep => [.running]
  | .path _ => [.system]
  | .template (.unknownName _) => [.lookup]
  | .template .openName | .template .openField | .template (.unknownLetter ..) => [.value]
  | .template .widthTooBig | .template .precisionTooBig => [.value]
  | .template _ => []
  | .blank _ => []
  | .unbound _ => [.lookup]

/-- Whether a fault is about a grammar or its file. -/
def isAboutGrammar (f : Fault) : Bool := f.families.contains .grammar

def message : Fault → String
  | .general wording | .noStart wording => wording
  | .noProductions => Grammar.Lack.productions.message
  | .derivation failure => failure.message
  | .tooManySentences => "Python int too large to convert to C ssize_t"
  | .unreadable file reason? =>
    let reason := reason?.getD ""
    "grammar file could not be read: " ++ file ++ if reason = "" then "" else " (" ++ reason ++ ")"
  | .missing entry => entry.message
  | .choice fault => fault.message
  | .unknownEncoding name => "unknown encoding: " ++ name
  | .zeroInEncoding => "embedded null character"
  | .unencodable fault => fault.message
  | .path fault => fault.message
  | .template fault => fault.message
  | .blank setting => setting.message
  | .unbound name => Text.quoted name

end Fault

end BraceGrammar
