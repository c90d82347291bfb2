import BraceGrammar.Derivation

/-!
# Derivation forests

A forest gives each symbol of a list its derivation tree.  A plain symbol is a leaf.  A bracketed
one has the index of one of its bodies, with a forest for that body, or nothing below it when its
head has no bodies.  A derivation tree of a symbol is a forest of that symbol alone.

From left to right and from above, a forest yields its words, the indices chosen (`choices`) and the
numbers of bodies that they were chosen among (`counts`).
-/

namespace BraceGrammar

namespace Derivation

/-- Derivation trees for the symbols of a list, side by side. -/
inductive Forest (T : Table) : List Symbol → Type
  | nil : Forest T []
  | plain {X : Symbol} {rest : List Symbol} (isPlain : X.isPlain) (others : Forest T rest) :
      Forest T (X :: rest)
  /-- A head without bodies. -/
  | childless {X : Symbol} {rest : List Symbol} (isBracketed : X.isBracketed)
      (noBodies : T.bodies? X = some []) (others : Forest T rest) : Forest T (X :: rest)
  | node {X : Symbol} {rest : List Symbol} {bodies : List Body} (isBracketed : X.isBracketed)
      (found : T.bodies? X = some bodies) (index : Fin bodies.length)
      (children : Forest T (bodies.get index)) (others : Forest T rest) : Forest T (X :: rest)

namespace Forest

variable {T : Table}

def words : {Xs : List Symbol} → Forest T Xs → List String
  | _, .nil => []
  | X :: _, .plain _ others => X.text :: others.words
  | _, .childless _ _ others => others.words
  | _, .node _ _ _ children others => children.words ++ others.words

def choices : {Xs : List Symbol} → Forest T Xs → List Nat
  | _, .nil => []
  | _, .plain _ others => others.choices
  | _, .childless _ _ others => others.choices
  | _, .node _ _ index children others => index.val :: (children.choices ++ others.choices)

/-- For each index, among how many it was chosen. -/
def counts : {Xs : List Symbol} → Forest T Xs → List Nat
  | _, .nil => []
  | _, .plain _ others => others.counts
  | _, .childless _ _ others => others.counts
  | _, @Forest.node _ _ _ bodies _ _ _ children others =>
    bodies.length :: (children.counts ++ others.counts)

theorem length_counts {Xs : List Symbol} (f : Forest T Xs) :
    f.counts.length = f.choices.length := by
  induction f with
  | nil => rfl
  | plain _ _ ih => exact ih
  | childless _ _ _ ih => exact ih
  | node _ _ _ _ _ ihc iho => simp [counts, choices, ihc, iho]

/-- Whether no head without bodies was used. -/
def isFull : {Xs : List Symbol} → Forest T Xs → Bool
  | _, .nil => true
  | _, .plain _ others => others.isFull
  | _, .childless .. => false
  | _, .node _ _ _ children others => children.isFull && others.isFull

end Forest

end Derivation

end BraceGrammar
