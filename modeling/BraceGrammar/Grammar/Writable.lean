import BraceGrammar.Grammar
import BraceGrammar.Token

/-!
# Writable grammars

Not every grammar has a text that reads back as it.  A text is a token when it holds neither a blank
nor a carriage return with a line feed after it; heads and symbols of bodies have to be tokens, and
those that would be read as something else are excepted.  The start symbol has to be a head, since
reading takes the first head for it.
-/

namespace BraceGrammar

/-- Texts that stay in one piece when a text is cut into tokens. -/
def Token.IsWhole (text : String) : Prop :=
  ' ' ∉ text.toList ∧ ¬['\r', '\n'] <:+: text.toList

instance (text : String) : Decidable (Token.IsWhole text) :=
  inferInstanceAs (Decidable (_ ∧ _))

namespace Symbol

def IsWritableHead (s : Symbol) : Prop := Token.IsWhole s.text ∧ s.text ≠ Token.blockEnd

def IsWritable (s : Symbol) : Prop :=
  Token.IsWhole s.text ∧ s.text ≠ Token.blockEnd ∧ s.text ≠ Token.bodyEnd ∧ s.text ≠ newlineToken

instance (s : Symbol) : Decidable s.IsWritableHead := inferInstanceAs (Decidable (_ ∧ _))

instance (s : Symbol) : Decidable s.IsWritable := inferInstanceAs (Decidable (_ ∧ _ ∧ _ ∧ _))

end Symbol

/-- Tables all of whose symbols can be written. -/
def Table.IsWritable (T : Table) : Prop :=
  ∀ e ∈ T.entries, e.1.IsWritableHead ∧ ∀ body ∈ e.2, ∀ s ∈ body, s.IsWritable

instance (T : Table) : Decidable T.IsWritable :=
  inferInstanceAs (Decidable (∀ e ∈ T.entries, _))

/-- Grammars that read back from their text. -/
def Grammar.IsWritable (g : Grammar) : Prop :=
  g.table.IsWritable ∧
    match g.start? with
    | none => g.table.heads = []
    | some S => S ∈ g.table.heads

instance (g : Grammar) : Decidable g.IsWritable := by
  unfold Grammar.IsWritable
  cases g.start? <;> exact inferInstance

end BraceGrammar
