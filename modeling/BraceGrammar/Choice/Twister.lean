/-!
# The Mersenne Twister

The generator MT19937: 624 words of 32 bits, renewed all at once when they are used up.  `ofSeed`
mixes the words of a whole number into the state, least significant word first, and `below?` draws
numbers until one is under a bound.  There is no telling how many it takes, but after more attempts
than the generator has states it goes round in a circle.
-/

namespace BraceGrammar

namespace Choice

abbrev Twister.degree : Nat := 624

structure Twister where
  words : Vector UInt32 Twister.degree
  /-- The word that comes next; from `degree` on, the words have to be renewed first. -/
  position : Nat
deriving Inhabited

namespace Twister

/-! ## Seeding -/

/-- A word with its two topmost bits folded onto its lowest. -/
def folded (w : UInt32) : UInt32 := w ^^^ (w >>> 30)

/-- The state that seeding by a list of words begins with. -/
def initialWords : Vector UInt32 degree :=
  Nat.fold (degree - 1)
    (fun i h v => v.set (i + 1) (1812433253 * folded v[i] + (i + 1).toUInt32))
    (Vector.replicate degree 19650218)

/-- Replaces the word of one round of seeding by a function of it and of the word before it.  Rounds
go through the words from the second to the last, again and again, and after the last word the first
is made equal to it. -/
def mixRound (mix : UInt32 → UInt32 → UInt32) (round : Nat) (v : Vector UInt32 degree) :
    Vector UInt32 degree :=
  let i := round % (degree - 1)
  have hi : i < degree - 1 := Nat.mod_lt _ (by decide)
  let w := mix v[i + 1] v[i]
  let v := v.set (i + 1) w
  if i + 2 = degree then v.set 0 w else v

/-- The state after mixing a list of words into it. -/
def ofKey (key : Array UInt32) : Twister :=
  let rounds := max degree key.size
  let v := rounds.fold (fun round _ v =>
    let j := round % key.size
    mixRound (fun w previous => (w ^^^ (folded previous * 1664525)) + key.getD j 0 + j.toUInt32)
      round v) initialWords
  let v := (degree - 1).fold (fun round _ v =>
    let i := (rounds + round) % (degree - 1) + 1
    mixRound (fun w previous => (w ^^^ (folded previous * 1566083941)) - i.toUInt32)
      (rounds + round) v) v
  ⟨v.set 0 0x80000000, degree⟩

/-- The words of 32 bits of a number, least significant first; one word for zero. -/
def wordsOf (n : Nat) : List UInt32 :=
  if _ : n < UInt32.size then [n.toUInt32] else n.toUInt32 :: wordsOf (n / UInt32.size)
termination_by n
decreasing_by
  have hpos : 0 < n := Nat.lt_of_lt_of_le (by decide) (Nat.le_of_not_lt ‹¬n < UInt32.size›)
  exact Nat.div_lt_self hpos (by decide)

/-- Seeds by a whole number, whose sign plays no part. -/
def ofSeed (seed : Int) : Twister := ofKey (wordsOf seed.natAbs).toArray

/-! ## Drawing -/

/-- Renews one word from itself, its successor and the word 397 places on. -/
def renewWord (i : Nat) (hi : i < degree) (v : Vector UInt32 degree) : Vector UInt32 degree :=
  have next : (i + 1) % degree < degree := Nat.mod_lt _ (by decide)
  have far : (i + 397) % degree < degree := Nat.mod_lt _ (by decide)
  let successor := v[(i + 1) % degree]
  let distant := v[(i + 397) % degree]
  let y := (v[i] &&& 0x80000000) ||| (successor &&& 0x7fffffff)
  v.set i (distant ^^^ (y >>> 1) ^^^ (if y &&& 1 = 1 then 0x9908b0df else 0))

def renew (v : Vector UInt32 degree) : Vector UInt32 degree := degree.fold renewWord v

/-- Spreads the bits of a word of the state. -/
def temper (w : UInt32) : UInt32 :=
  let w := w ^^^ (w >>> 11)
  let w := w ^^^ ((w <<< 7) &&& 0x9d2c5680)
  let w := w ^^^ ((w <<< 15) &&& 0xefc60000)
  w ^^^ (w >>> 18)

def next (t : Twister) : UInt32 × Twister :=
  if h : t.position < degree then
    (temper t.words[t.position], { t with position := t.position + 1 })
  else
    let words := renew t.words
    (temper words[0], ⟨words, 1⟩)

/-- A number of `k` random bits: the words that are drawn are its digits, least significant first,
and of the last one the topmost bits are used. -/
def bits (k : Nat) (t : Twister) : Nat × Twister :=
  let (w, t) := t.next
  if k ≤ 32 then (w.toNat >>> (32 - k), t)
  else
    let (high, t) := bits (k - 32) t
    (w.toNat + high * UInt32.size, t)
termination_by k

/-- Draws as many bits as the bound has until the number is under the bound.  There is nothing if no
attempt of so many succeeds. -/
def belowWithin? (bound : Nat) : Nat → Twister → Option (Nat × Twister)
  | 0, _ => none
  | attempts + 1, t =>
    let (r, t) := t.bits (bound.log2 + 1)
    if r < bound then some (r, t) else belowWithin? bound attempts t

/-- More than the generator has states. -/
def maxAttempts : Nat := 1 <<< 20000

def below? (bound : Nat) (t : Twister) : Option (Nat × Twister) :=
  belowWithin? bound maxAttempts t

theorem belowWithin?_lt {bound attempts r : Nat} {t t' : Twister}
    (h : belowWithin? bound attempts t = some (r, t')) : r < bound := by
  induction attempts generalizing t with
  | zero => cases h
  | succ attempts ih =>
    rw [belowWithin?] at h
    dsimp only at h
    split at h
    · cases h
      assumption
    · exact ih h

theorem below?_lt {bound r : Nat} {t t' : Twister} (h : t.below? bound = some (r, t')) :
    r < bound :=
  belowWithin?_lt h

end Twister

end Choice

end BraceGrammar
