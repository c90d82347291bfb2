import BraceGrammar.FileTree

/-!
# Changes along a path

Where the names of a path lead is decided by the names alone (`Place.along`); what is there decides
whether one gets there.  A path passes the places that its first names lead to, from its start to
its end.

Two ways in which a tree may change along a path: it gains directories that the path passes and is
the same everywhere else (`GainsDirectories`), or it does so and also has a file with some content
at the end of the path (`GainsFile`).
-/

namespace BraceGrammar

namespace FileTree

namespace Place

/-- The place that a name leads to. -/
def follow (here : Place) (name : String) : Place :=
  if name = "" ∨ name = "." then here
  else if name = ".." then here.parent
  else here.child name

/-- The place that names lead to, one after the other. -/
def along (here : Place) (names : List String) : Place := names.foldl follow here

end Place

namespace Path

/-- The place at the end of a path. -/
def place (p : Path) : Place := p.start.along p.names

/-- A place is passed by a path if some of the path's names, from the first one on, lead to it. -/
def Passes (p : Path) (q : Place) : Prop := ∃ names, names <+: p.names ∧ q = p.start.along names

end Path

/-- One tree is another with directories added where a path passes and nothing was. -/
structure GainsDirectories (t u : FileTree) (p : Path) : Prop where
  frame : u = { t with entries := u.entries }
  places : ∀ q, u.at? q = t.at? q ∨ (t.at? q = none ∧ u.at? q = some .directory ∧ p.Passes q)

/-- One tree is another with a file at the end of a path, where no directory was, and with all the
directories that the path passes. -/
structure GainsFile (t u : FileTree) (p : Path) (content : Bytes) : Prop where
  frame : u = { t with entries := u.entries }
  found : u.content? p = some content
  vacant : t.at? p.place ≠ some .directory
  passed : ∀ q, p.Passes q → q ≠ p.place → u.at? q = some .directory
  others : ∀ q, q ≠ p.place →
    u.at? q = t.at? q ∨ (t.at? q = none ∧ u.at? q = some .directory ∧ p.Passes q)

theorem GainsDirectories.home {t u : FileTree} {p : Path} (h : t.GainsDirectories u p) :
    u.home = t.home := by
  rw [h.frame]

theorem GainsFile.home {t u : FileTree} {p : Path} {content : Bytes}
    (h : t.GainsFile u p content) : u.home = t.home := by
  rw [h.frame]

/-- The directory that a path ends in is there or can be made, and a file with a name of some length
can be made in it: it has room for the name and is not closed. -/
def CanHold (t : FileTree) (p : Path) (length : Nat) : Prop :=
  ∃ u directory, p.parent?.elim (t, none) t.makeDirectories = (u, none) ∧
    p.parent?.elim (.ok u.home) (fun above => u.walk above.start above.names) = .ok directory ∧
    directory.hasRoom length = true ∧ u.refusal? directory = none

end FileTree

end BraceGrammar
