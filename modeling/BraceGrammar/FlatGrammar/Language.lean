import BraceGrammar.FlatGrammar

/-!
# The language of a flat grammar

One item of a form may be rewritten at a time, wherever it stands.  The language holds the texts
that can be derived from the start name.
-/

namespace BraceGrammar

namespace FlatGrammar

variable (F : FlatGrammar)

/-- One name is replaced by the right-hand side of one of its productions. -/
inductive Rewrites : List Item → List Item → Prop
  | intro (before after : List Item) {p : Production} (member : p ∈ F.productions) :
      Rewrites (before ++ .nonterminal p.lhs :: after) (before ++ p.rhs ++ after)

inductive Derives (form : List Item) : List Item → Prop
  | refl : Derives form form
  | tail {form' form'' : List Item} (derived : Derives form form')
      (rewrites : F.Rewrites form' form'') : Derives form form''

variable {F}

theorem Derives.trans {xs ys zs : List Item} (h : F.Derives xs ys) (h' : F.Derives ys zs) :
    F.Derives xs zs := by
  induction h' with
  | refl => exact h
  | tail _ rewrites ih => exact .tail ih rewrites

theorem Rewrites.append {xs ys : List Item} (h : F.Rewrites xs ys) (before after : List Item) :
    F.Rewrites (before ++ xs ++ after) (before ++ ys ++ after) := by
  obtain ⟨left, right, member⟩ := h
  simpa using Rewrites.intro (before ++ left) (right ++ after) member

theorem Derives.append {xs ys : List Item} (h : F.Derives xs ys) (before after : List Item) :
    F.Derives (before ++ xs ++ after) (before ++ ys ++ after) := by
  induction h with
  | refl => exact .refl
  | tail _ rewrites ih => exact .tail ih (rewrites.append before after)

/-- The lists of texts that come of the start name. -/
def IsSentence (F : FlatGrammar) (texts : List String) : Prop :=
  F.Derives [.nonterminal F.start] (texts.map .terminal)

end FlatGrammar

end BraceGrammar
