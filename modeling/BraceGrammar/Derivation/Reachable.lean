import BraceGrammar.Derivation

/-!
# Reachable symbols

The symbols that a derivation from `S` can meet: `S` itself, and with a bracketed symbol those of
all its bodies.
-/

namespace BraceGrammar

namespace Derivation

/-- The symbols that can come of a symbol. -/
inductive Reachable (T : Table) (S : Symbol) : Symbol → Prop
  | start : Reachable T S S
  | step {X Y : Symbol} {bodies : List Body} {body : Body} (reached : Reachable T S X)
      (isBracketed : X.isBracketed) (found : T.bodies? X = some bodies) (chosen : body ∈ bodies)
      (member : Y ∈ body) : Reachable T S Y

end Derivation

end BraceGrammar
