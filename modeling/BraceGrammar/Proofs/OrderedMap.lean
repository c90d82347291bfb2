import BraceGrammar.OrderedMap

/-!
# Maps from lists of entries

`insertEach m es` inserts the entries of a list one after the other, so `ofList es` is
`insertEach ∅ es`.  The keys that are new come after the old ones, in the order of their first
entries (`keys_insertEach`), and a key has the value of its last entry (`find?_insertEach`).  A list
without a repeated key is the list of entries of its map (`entries_ofList`).

So a list of entries acts on a map as its own map does: `keys_insertEach_eq_append` and
`find?_insertEach_eq_or` say what of `ofList es` is found again in `insertEach m es`.
-/

namespace BraceGrammar

namespace OrderedMap

variable {κ α : Type} [DecidableEq κ] (m : OrderedMap κ α)

/-- Inserts entries one after the other. -/
def insertEach (es : List (κ × α)) : OrderedMap κ α := es.foldl (fun m e => m.insert e.1 e.2) m

theorem ofList_eq_insertEach (es : List (κ × α)) : ofList es = insertEach ∅ es := rfl

theorem insertEach_cons (e : κ × α) (es : List (κ × α)) :
    m.insertEach (e :: es) = (m.insert e.1 e.2).insertEach es := rfl

/-! ## Keys -/

omit [DecidableEq κ] in
theorem eraseDups_of_nodup [BEq κ] [LawfulBEq κ] {l : List κ} (h : l.Nodup) : l.eraseDups = l := by
  induction l with
  | nil => rfl
  | cons a l ih =>
      obtain ⟨ha, hl⟩ := List.nodup_cons.1 h
      have hfilter : l.filter (fun b => !b == a) = l := by
        rw [List.filter_eq_self]
        intro b hb
        have hne : b ≠ a := fun e => ha (e ▸ hb)
        simpa using hne
      rw [List.eraseDups_cons, hfilter, ih hl]

theorem eraseDups_append_cons_of_mem {k : κ} {l : List κ} (h : k ∈ l) (r : List κ) :
    (l ++ k :: r).eraseDups = (l ++ r).eraseDups := by
  have hr : (k :: r).removeAll l = r.removeAll l := by
    rw [List.cons_removeAll, if_neg]
    simpa using h
  rw [List.eraseDups_append, List.eraseDups_append, hr]

/-- Old keys first, then new ones by their first entries. -/
theorem keys_insertEach (es : List (κ × α)) :
    (m.insertEach es).keys = (m.keys ++ es.map Prod.fst).eraseDups := by
  induction es generalizing m with
  | nil =>
      rw [List.map_nil, List.append_nil]
      exact (eraseDups_of_nodup m.keys_nodup).symm
  | cons e es ih =>
      rw [insertEach_cons, ih, keys_insert, List.map_cons]
      split
      · next h => rw [eraseDups_append_cons_of_mem h]
      · rw [List.append_assoc, List.singleton_append]

theorem keys_ofList (es : List (κ × α)) : (ofList es).keys = (es.map Prod.fst).eraseDups :=
  keys_insertEach ∅ es

/-! ## Values -/

/-- The last entry of a key has its value. -/
theorem find?_insertEach (es : List (κ × α)) (k : κ) :
    (m.insertEach es).find? k = (es.reverse.lookup k).or (m.find? k) := by
  induction es generalizing m with
  | nil => rfl
  | cons e es ih =>
      have hlast : (m.insert e.1 e.2).find? k = ([e].lookup k).or (m.find? k) := by
        rw [find?_insert, lookup_cons_eq_if]
        split <;> rfl
      rw [insertEach_cons, ih, hlast, List.reverse_cons, List.lookup_append, Option.or_assoc]

theorem find?_ofList (es : List (κ × α)) (k : κ) : (ofList es).find? k = es.reverse.lookup k := by
  rw [ofList_eq_insertEach, find?_insertEach]
  exact Option.or_none

theorem find?_insertEach_eq_or (es : List (κ × α)) (k : κ) :
    (m.insertEach es).find? k = ((ofList es).find? k).or (m.find? k) := by
  rw [find?_insertEach, find?_ofList]

/-! ## New keys -/

/-- The new keys are those of the list's own map, in their order there. -/
theorem keys_insertEach_eq_append (es : List (κ × α)) :
    (m.insertEach es).keys = m.keys ++ (ofList es).keys.filter (· ∉ m.keys) := by
  induction es generalizing m with
  | nil => exact (List.append_nil _).symm
  | cons e es ih =>
      have hown : (ofList (e :: es)).keys =
          e.1 :: (ofList es).keys.filter (· ∉ [e.1]) := ih ((∅ : OrderedMap κ α).insert e.1 e.2)
      rw [insertEach_cons, ih, keys_insert, hown]
      by_cases h : e.1 ∈ m.keys
      · rw [if_pos h, List.filter_cons_of_neg (by simpa using h), List.filter_filter]
        congr 1
        apply List.filter_congr
        intro k _
        have hne : k ∉ m.keys → k ≠ e.1 := fun hk he => hk (he ▸ h)
        by_cases hk : k ∈ m.keys <;> simp [hk, hne]
      · rw [if_neg h, List.filter_cons_of_pos (by simpa using h), List.filter_filter,
          List.append_assoc, List.singleton_append]
        congr 2
        apply List.filter_congr
        intro k _
        simp

/-! ## Entries -/

theorem mem_entries_iff (k : κ) (x : α) : (k, x) ∈ m.entries ↔ m.find? k = some x := by
  obtain ⟨es, hnodup⟩ := m
  unfold find?
  dsimp only
  induction es with
  | nil => simp
  | cons e es ih =>
      obtain ⟨i, y⟩ := e
      rw [List.map_cons, List.nodup_cons] at hnodup
      rw [List.mem_cons, lookup_cons_eq_if, ih hnodup.2]
      by_cases h : k = i
      · subst h
        rw [if_pos rfl, Prod.mk.injEq, Option.some.injEq]
        constructor
        · rintro (⟨-, rfl⟩ | hfind)
          · rfl
          · have hmem := (ih hnodup.2).2 hfind
            exact absurd (List.mem_map_of_mem hmem) hnodup.1
        · rintro rfl
          exact Or.inl ⟨rfl, rfl⟩
      · simp [h]

theorem setEntry_of_notMem {k : κ} {es : List (κ × α)} (h : k ∉ es.map Prod.fst) (x : α) :
    setEntry k x es = es ++ [(k, x)] := by
  induction es with
  | nil => rfl
  | cons e es ih =>
      rw [List.map_cons, List.mem_cons, not_or] at h
      rw [setEntry, if_neg (Ne.symm h.1), ih h.2, List.cons_append]

theorem entries_insertEach (es : List (κ × α)) (h : (m.keys ++ es.map Prod.fst).Nodup) :
    (m.insertEach es).entries = m.entries ++ es := by
  induction es generalizing m with
  | nil => exact (List.append_nil _).symm
  | cons e es ih =>
      rw [List.map_cons, List.nodup_append] at h
      obtain ⟨hm, he, hdisjoint⟩ := h
      have hnew : e.1 ∉ m.keys := fun hmem => hdisjoint _ hmem _ List.mem_cons_self rfl
      have hkeys : (m.insert e.1 e.2).keys = m.keys ++ [e.1] := by rw [keys_insert, if_neg hnew]
      have hentries : (m.insert e.1 e.2).entries = m.entries ++ [e] := setEntry_of_notMem hnew e.2
      rw [insertEach_cons, ih, hentries, List.append_assoc, List.singleton_append]
      rw [hkeys, List.append_assoc, List.singleton_append, List.nodup_append]
      exact ⟨hm, he, hdisjoint⟩

theorem entries_ofList {es : List (κ × α)} (h : (es.map Prod.fst).Nodup) :
    (ofList es).entries = es :=
  entries_insertEach ∅ es h

end OrderedMap

end BraceGrammar
