import BraceGrammar.Derivation

/-!
# Renaming symbols

A map of symbols renames a table and whatever a derivation makes of it: the symbols that are pending,
the words, and the symbol that a failure names.  Words are texts of plain symbols and are renamed as
these are.

A renaming keeps bracketed symbols apart.  Plain symbols it may bring together.
-/

namespace BraceGrammar

namespace Symbol

/-- Maps that take bracketed symbols to bracketed ones, no two of them to the same, and plain symbols
to plain ones. -/
structure IsRenaming (f : Symbol → Symbol) : Prop where
  isBracketed_eq : ∀ X, (f X).isBracketed = X.isBracketed
  eq_of_eq : ∀ X Y, X.isBracketed = true → Y.isBracketed = true → f X = f Y → X = Y

end Symbol

/-- The entries of the bracketed heads, with every symbol renamed. -/
def Table.rename (f : Symbol → Symbol) (T : Table) : Table :=
  .ofList ((T.entries.filter fun e => e.1.isBracketed).map fun e => (f e.1, e.2.map (·.map f)))

namespace Derivation

variable {σ : Type} (f : Symbol → Symbol)

def renameWord (w : String) : String := (f ⟨w⟩).text

def Failure.rename : Failure → Failure
  | .undefined X => .undefined (f X)
  | .limit bound => .limit bound
  | .outOfRange index count => .outOfRange index count

def State.rename (s : State σ) : State σ :=
  ⟨s.pending.map f, s.words.map (renameWord f), s.expansions, s.source⟩

def Ending.rename (e : Ending σ) : Ending σ :=
  ⟨(e.result.map (·.map (renameWord f))).mapError (Failure.rename f), e.expansions, e.source⟩

def Progress.rename : Progress σ → Progress σ
  | .running s => .running (s.rename f)
  | .ended e => .ended (e.rename f)

end Derivation

end BraceGrammar
