import BraceGrammar.CommandLine.Arguments

/-!
# Reading arguments, one at a time

The first pass over the arguments tells what each of them is, whatever the others are
(`classifyAll_cons`).  The second gives a switch the plain argument behind it (`takeAll_value`), if
it takes a value, and takes the first plain argument that no switch is before for the operand
(`takeAll_operand`).
-/

namespace BraceGrammar

namespace CommandLine

namespace Interface

variable {I : Interface} {text name : String} {rest extra : List String} {a : Argument}
  {others : List Argument} {s : Switch} {c c' : Settings} {result : Settings × List String}

theorem classify_plain (h : text.toList.head? ≠ some '-') :
    I.classify text = .ok (.plain text) := by
  rw [classify, if_pos h]

theorem classifyAll_cons (hne : text ≠ "--") (ha : I.classify text = .ok a)
    (hrest : I.classifyAll rest = .ok others) :
    I.classifyAll (text :: rest) = .ok (a :: others) := by
  rw [classifyAll, ha, hrest]
  · rfl
  · exact hne

theorem takeAll_nil (I : Interface) (c : Settings) : I.takeAll c [] [] = .ok (c, []) := by
  rw [takeAll, List.reverse_nil]

/-- A switch that takes a value is given the plain argument behind it. -/
theorem takeAll_value (hs : s.takes ≠ .nothing) (htake : c.take s text = .ok c')
    (hrest : I.takeAll c' extra others = .ok result) :
    I.takeAll c extra (.switch s name none :: .plain text :: others) = .ok result := by
  rw [takeAll, if_neg hs]
  simp only [htake, hrest]

/-- A switch that takes nothing is given. -/
theorem takeAll_nothing (hs : s.takes = .nothing) (htake : c.take s "" = .ok c')
    (hrest : I.takeAll c' extra others = .ok result) :
    I.takeAll c extra (.switch s name none :: others) = .ok result := by
  unfold takeAll
  simp only [if_pos hs, htake, hrest]

theorem takeAll_operand (hI : I.operand?.isSome = true) (hc : c.operand? = none)
    (hnext : others.head? ≠ some .separator)
    (hrest : I.takeAll { c with operand? := some text } extra others = .ok result) :
    I.takeAll c extra (.plain text :: others) = .ok result := by
  rw [takeAll, hI, hc]
  · simp only [Option.isNone_none, Bool.and_self, if_true, hrest]
  · rintro after rfl
    exact hnext rfl

/-- Arguments are read when both passes come to an end, nothing is left over, and no switch is
missing. -/
theorem read_eq_ok (hclassify : I.classifyAll rest = .ok others)
    (htake : I.takeAll {} [] others = .ok (c, []))
    (hrequired : (I.switches.filter fun s => s.required && !c.has s.key) = []) :
    I.read rest = .ok c := by
  simp only [read, hclassify, htake, bind, Except.bind, hrequired]
  rfl

end Interface

/-! ## Switches -/

/-- A word that does not begin with a dash is the value of a switch that takes one. -/
theorem Settings.take_word {s : Switch} (hs : s.takes = .word) {word : String}
    (hword : word.toList.head? ≠ some '-') (c : Settings) :
    c.take s word = .ok (c.give s (.word word)) := by
  have hne : word ≠ "--" := by
    rintro rfl
    exact hword rfl
  simp [take, hs, hne]

/-- A switch for a number that needs no explanation. -/
def integerSwitch (name : String) : Switch where
  names := [name]
  takes := .integer

end CommandLine

end BraceGrammar
