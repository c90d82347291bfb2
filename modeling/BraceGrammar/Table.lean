import BraceGrammar.OrderedMap
import BraceGrammar.Symbol

/-!
# Production tables

A table gives each head its list of bodies, and keeps the heads in the order of their declaration.
-/

namespace BraceGrammar

/-- Heads with their bodies, in the order of declaration. -/
abbrev Table := OrderedMap Symbol (List Body)

namespace Table

variable (T : Table)

abbrev heads : List Symbol := T.keys

abbrev bodies? (X : Symbol) : Option (List Body) := T.find? X

/-- Gives more bodies to a head that has an entry. -/
def addBodies (X : Symbol) (more : List Body) : Table :=
  match T.bodies? X with
  | none => T
  | some bodies => T.insert X (bodies ++ more)

theorem addBodies_nil (X : Symbol) : T.addBodies X [] = T := by
  unfold addBodies
  split
  · rfl
  · next h => rw [List.append_nil, OrderedMap.insert_of_find? T X h]

theorem addBodies_append (X : Symbol) (xs ys : List Body) :
    T.addBodies X (xs ++ ys) = (T.addBodies X xs).addBodies X ys := by
  unfold addBodies
  cases h : T.bodies? X with
  | none => simp [h]
  | some bodies => simp [OrderedMap.find?_insert, OrderedMap.insert_insert]

theorem contains_addBodies (X Y : Symbol) (more : List Body) :
    (T.addBodies X more).contains Y = T.contains Y := by
  unfold addBodies
  split
  · rfl
  · next h =>
    unfold OrderedMap.contains
    rw [OrderedMap.find?_insert]
    split
    · next hY => simp [hY, h]
    · rfl

/-- Whether two tables give the same bodies to the same heads, in whatever order the heads are. -/
def sameEntries (U : Table) : Bool :=
  T.size == U.size && T.entries.all fun e => U.bodies? e.1 == some e.2

end Table

end BraceGrammar
