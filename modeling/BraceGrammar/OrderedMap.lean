/-!
# Maps in order of insertion

A map from keys to values that remembers the order in which its keys came.  Giving a new value to a
key that is there leaves the key at its place (`keys_insert`); looking a key up after an insertion
finds what was inserted (`find?_insert`); a key that is erased and inserted again comes last.
-/

namespace BraceGrammar

/-- Keys with values, in order of insertion, no key twice. -/
structure OrderedMap (κ α : Type) where
  entries : List (κ × α)
  keys_nodup : (entries.map Prod.fst).Nodup

namespace OrderedMap

variable {κ α : Type}

instance : EmptyCollection (OrderedMap κ α) := ⟨⟨[], by simp⟩⟩

instance : Inhabited (OrderedMap κ α) := ⟨∅⟩

def keys (m : OrderedMap κ α) : List κ := m.entries.map Prod.fst

def size (m : OrderedMap κ α) : Nat := m.entries.length

variable [DecidableEq κ]

/-- Sets one entry of a list, at its place if its key is there and at the end if not. -/
def setEntry (k : κ) (x : α) : List (κ × α) → List (κ × α)
  | [] => [(k, x)]
  | e :: rest => if e.1 = k then (k, x) :: rest else e :: setEntry k x rest

theorem map_fst_setEntry (k : κ) (x : α) (es : List (κ × α)) :
    (setEntry k x es).map Prod.fst =
      if k ∈ es.map Prod.fst then es.map Prod.fst else es.map Prod.fst ++ [k] := by
  induction es with
  | nil => simp [setEntry]
  | cons e es ih =>
      by_cases h : e.1 = k
      · simp [setEntry, h]
      · have h' : ¬k = e.1 := fun hk => h hk.symm
        simp only [setEntry, if_neg h, List.map_cons, ih, List.mem_cons, h', false_or]
        split <;> rfl

theorem lookup_cons_eq_if (k l : κ) (x : α) (es : List (κ × α)) :
    ((k, x) :: es).lookup l = if l = k then some x else es.lookup l := by
  by_cases h : l = k
  · simp [h]
  · have : (l == k) = false := by simpa using h
    simp [List.lookup_cons, h, this]

theorem lookup_setEntry (k l : κ) (x : α) (es : List (κ × α)) :
    (setEntry k x es).lookup l = if l = k then some x else es.lookup l := by
  induction es with
  | nil => exact lookup_cons_eq_if k l x []
  | cons e es ih =>
      obtain ⟨i, y⟩ := e
      by_cases hi : i = k
      · subst hi
        simp only [setEntry, if_true, lookup_cons_eq_if]
        split <;> rfl
      · simp only [setEntry, if_neg hi, lookup_cons_eq_if, ih]
        by_cases hl : l = k
        · have : ¬k = i := fun h => hi h.symm
          simp [hl, this]
        · simp [hl]

theorem setEntry_setEntry (k : κ) (x y : α) (es : List (κ × α)) :
    setEntry k y (setEntry k x es) = setEntry k y es := by
  induction es with
  | nil => simp [setEntry]
  | cons e es ih =>
      by_cases h : e.1 = k
      · simp [setEntry, h]
      · simp [setEntry, h, ih]

theorem setEntry_of_lookup {k : κ} {x : α} {es : List (κ × α)} (h : es.lookup k = some x) :
    setEntry k x es = es := by
  induction es with
  | nil => simp at h
  | cons e es ih =>
      obtain ⟨i, y⟩ := e
      rw [lookup_cons_eq_if] at h
      by_cases hi : k = i
      · rw [if_pos hi, Option.some.injEq] at h
        simp [setEntry, hi, h]
      · rw [if_neg hi] at h
        have hi' : ¬i = k := fun h => hi h.symm
        simp [setEntry, hi', ih h]

omit [DecidableEq κ] in
@[ext] theorem ext {m n : OrderedMap κ α} (h : m.entries = n.entries) : m = n := by
  cases m
  cases n
  congr

variable (m : OrderedMap κ α) (k l : κ)

def find? : Option α := m.entries.lookup k

def contains : Bool := (m.find? k).isSome

/-- Gives a key its value, in place of the one it may have had. -/
def insert (x : α) : OrderedMap κ α where
  entries := setEntry k x m.entries
  keys_nodup := by
    rw [map_fst_setEntry]
    split
    · exact m.keys_nodup
    · next h =>
      refine List.nodup_append.2 ⟨m.keys_nodup, by simp, ?_⟩
      intro a ha b hb hab
      rw [List.mem_singleton] at hb
      exact h (hb ▸ hab ▸ ha)

theorem keys_insert (x : α) :
    (m.insert k x).keys = if k ∈ m.keys then m.keys else m.keys ++ [k] :=
  map_fst_setEntry k x m.entries

theorem find?_insert (x : α) :
    (m.insert k x).find? l = if l = k then some x else m.find? l :=
  lookup_setEntry k l x m.entries

theorem insert_of_find? {x : α} (h : m.find? k = some x) : m.insert k x = m :=
  ext (setEntry_of_lookup h)

theorem insert_insert (x y : α) : (m.insert k x).insert k y = m.insert k y :=
  ext (setEntry_setEntry k x y m.entries)

/-- Forgets a key and its value. -/
def erase : OrderedMap κ α where
  entries := m.entries.filter fun e => e.1 ≠ k
  keys_nodup := m.keys_nodup.sublist (List.filter_sublist.map Prod.fst)

theorem find?_erase : (m.erase k).find? l = if l = k then none else m.find? l := by
  unfold find? erase
  dsimp only
  induction m.entries with
  | nil => simp
  | cons e es ih =>
      obtain ⟨i, x⟩ := e
      by_cases hi : i = k
      · rw [List.filter_cons_of_neg (by simp [hi]), ih, lookup_cons_eq_if, hi]
        split <;> rfl
      · rw [List.filter_cons_of_pos (by simpa using hi), lookup_cons_eq_if, lookup_cons_eq_if, ih]
        by_cases hl : l = k
        · have : ¬k = i := fun h => hi h.symm
          simp [hl, this]
        · simp [hl]

theorem mem_keys_iff : k ∈ m.keys ↔ (m.find? k).isSome := by
  unfold keys find?
  induction m.entries with
  | nil => simp
  | cons e es ih =>
      obtain ⟨i, x⟩ := e
      rw [lookup_cons_eq_if, List.map_cons, List.mem_cons, ih]
      by_cases h : k = i <;> simp [h]

/-- The map of a list of entries.  Of several with one key the first gives the place and the last
the value. -/
def ofList (entries : List (κ × α)) : OrderedMap κ α :=
  entries.foldl (fun m e => m.insert e.1 e.2) ∅

end OrderedMap

end BraceGrammar
