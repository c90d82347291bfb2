import BraceGrammar.FlatGrammar.Grouping
import BraceGrammar.Proofs.FlatLanguage
import Mathlib.Data.List.Nodup

/-!
# What the flat form keeps

A name stands for the head that is written with brackets around it and, unless the name is itself
bracketed, for the plain head that is written as the name (`Symbol.bareName_eq_iff`).  The
productions of a name are the bodies of these heads (`FlatGrammar.productionsOf_eq`).

When all heads are bracketed a name stands for one head alone, and grouping the productions by names
gives back the table without the heads that have no bodies (`FlatGrammar.groups_eq`).
-/

namespace BraceGrammar

/-! ## Names of symbols -/

namespace Symbol

variable {X : Symbol} {name : String}

theorem toList_bracketed (name : String) :
    (bracketed name).text.toList = '<' :: (name.toList ++ ['>']) := by
  simp [bracketed]

theorem isBracketed_bracketed (name : String) : (bracketed name).isBracketed = true := by
  simp [isBracketed, toList_bracketed, List.getLast?_cons]

theorem bareName_bracketed (name : String) : (bracketed name).bareName = name := by
  rw [bareName, if_pos (isBracketed_bracketed name), toList_bracketed]
  simp

theorem bracketed_bareName (h : X.isBracketed = true) : bracketed X.bareName = X :=
  eq_of_bareName_eq (isBracketed_bracketed _) h (bareName_bracketed _)

theorem bareName_of_isPlain (h : X.isPlain = true) : X.bareName = X.text := by
  have hX : X.isBracketed = false := by simpa [isPlain] using h
  simp [bareName, hX]

/-- The symbols with a name. -/
theorem bareName_eq_iff : X.bareName = name ↔
    X = .bracketed name ∨ (⟨name⟩ : Symbol).isPlain = true ∧ X = ⟨name⟩ := by
  constructor
  · rintro rfl
    by_cases hX : X.isBracketed = true
    · exact .inl (bracketed_bareName hX).symm
    · have hplain : X.isPlain = true := by simpa [isPlain] using hX
      rw [bareName_of_isPlain hplain]
      exact .inr ⟨hplain, rfl⟩
  · rintro (rfl | ⟨hplain, rfl⟩)
    · exact bareName_bracketed name
    · exact bareName_of_isPlain hplain

theorem symbol_item (X : Symbol) : X.item.symbol = X := by
  by_cases hX : X.isBracketed = true
  · rw [item_of_isBracketed hX]
    exact bracketed_bareName hX
  · have hplain : X.isPlain = true := by simpa [isPlain] using hX
    rw [item_of_isPlain hplain]
    rfl

end Symbol

namespace FlatGrammar

variable {F : FlatGrammar} {T : Table}

/-! ## The productions of a name -/

/-- The heads that a name stands for give it their bodies. -/
theorem productionsOf_eq (hF : F.productions = T.productions) (name : String) :
    F.productionsOf name =
      (T.entries.filter fun e => e.1.bareName = name).flatMap fun e =>
        e.2.map fun body => ⟨name, body.map Symbol.item⟩ := by
  rw [productionsOf, hF, Table.productions]
  induction T.entries with
  | nil => rfl
  | cons e entries ih =>
      rw [List.flatMap_cons, List.filter_append, ih]
      by_cases he : e.1.bareName = name
      · rw [List.filter_cons_of_pos (by simpa using he), List.flatMap_cons]
        simp [List.filter_map, Function.comp_def, he]
      · rw [List.filter_cons_of_neg (by simpa using he)]
        simp [List.filter_map, Function.comp_def, he]

/-- Bodies of a head that shares its name with no other. -/
theorem bodies_productionsOf (hF : F.productions = T.productions) {e : Symbol × List Body}
    (hunique : (T.entries.filter fun e' => e'.1.bareName = e.1.bareName) = [e]) :
    ((F.productionsOf e.1.bareName).map fun p => p.rhs.map Item.symbol) = e.2 := by
  rw [productionsOf_eq hF, hunique]
  simp [Function.comp_def, Symbol.symbol_item]

/-! ## Groups -/

/-- Names come in the order of their heads, if each is the name of one head. -/
theorem eraseDups_names (entries : List (Symbol × List Body))
    (h : (entries.map fun e => e.1.bareName).Nodup) :
    (entries.flatMap fun e => e.2.map fun _ => e.1.bareName).eraseDups =
      (entries.filter fun e => e.2 ≠ []).map fun e => e.1.bareName := by
  induction entries with
  | nil => rfl
  | cons e entries ih =>
      rw [List.map_cons, List.nodup_cons] at h
      obtain ⟨X, bodies⟩ := e
      cases bodies with
      | nil => simpa using ih h.2
      | cons body bodies =>
          -- the head's own name goes from its other bodies, and the later heads keep theirs
          have hown : (bodies.map fun _ => X.bareName).filter (fun name => !name == X.bareName) =
              [] := by
            simp
          have hothers : (entries.flatMap fun e => e.2.map fun _ => e.1.bareName).filter
              (fun name => !name == X.bareName) =
                entries.flatMap fun e => e.2.map fun _ => e.1.bareName := by
            apply List.filter_eq_self.2
            intro name hname
            obtain ⟨e, he, hmem⟩ := List.mem_flatMap.1 hname
            obtain ⟨_, _, rfl⟩ := List.mem_map.1 hmem
            have hne : e.1.bareName ≠ X.bareName :=
              fun heq => h.1 (heq ▸ List.mem_map_of_mem he)
            simpa using hne
          rw [List.flatMap_cons, List.map_cons, List.cons_append, List.eraseDups_cons,
            List.filter_append, hown, hothers, List.nil_append, ih h.2,
            List.filter_cons_of_pos (by simp), List.map_cons]

/-- Bracketed heads have names of their own. -/
theorem nodup_bareNames (hheads : ∀ X ∈ T.heads, X.isBracketed = true) :
    (T.entries.map fun e => e.1.bareName).Nodup := by
  have hkeys : (T.heads.map Symbol.bareName).Nodup :=
    (List.nodup_map_iff_inj_on T.keys_nodup).2 fun X hX Y hY hname =>
      Symbol.eq_of_bareName_eq (hheads X hX) (hheads Y hY) hname
  simpa [Table.heads, OrderedMap.keys, Function.comp_def] using hkeys

theorem filter_bareName_eq (hheads : ∀ X ∈ T.heads, X.isBracketed = true)
    {e : Symbol × List Body} (he : e ∈ T.entries) :
    (T.entries.filter fun e' => e'.1.bareName = e.1.bareName) = [e] := by
  have hnames := nodup_bareNames hheads
  have hsame : ∀ e' ∈ T.entries, (e'.1.bareName = e.1.bareName ↔ e' = e) := fun e' he' =>
    ⟨fun h => List.inj_on_of_nodup_map hnames he' he h, fun h => by rw [h]⟩
  rw [List.filter_congr fun e' he' => decide_eq_decide.2 (hsame e' he'), List.filter_eq,
    List.count_eq_one_of_mem hnames.of_map he, List.replicate_one]

theorem names_eq (hF : F.productions = T.productions)
    (hheads : ∀ X ∈ T.heads, X.isBracketed = true) :
    F.names = (T.entries.filter fun e => e.2 ≠ []).map fun e => e.1.bareName := by
  have hlhs : F.productions.map Production.lhs =
      T.entries.flatMap fun e => e.2.map fun _ => e.1.bareName := by
    rw [hF, Table.productions, List.map_flatMap]
    simp [Function.comp_def]
  rw [names, hlhs, eraseDups_names T.entries (nodup_bareNames hheads)]

/-- Groups of a grammar with bracketed heads: its entries, but for those without bodies. -/
theorem groups_eq (hF : F.productions = T.productions)
    (hheads : ∀ X ∈ T.heads, X.isBracketed = true) :
    F.groups = T.entries.filter fun e => e.2 ≠ [] := by
  have hgroup : ∀ e ∈ T.entries.filter (fun e => e.2 ≠ []),
      (Symbol.bracketed e.1.bareName,
        (F.productionsOf e.1.bareName).map fun p => p.rhs.map Item.symbol) = e := by
    intro e he
    have hentry : e ∈ T.entries := List.mem_of_mem_filter he
    rw [Symbol.bracketed_bareName (hheads e.1 (List.mem_map_of_mem hentry)),
      bodies_productionsOf hF (filter_bareName_eq hheads hentry)]
  rw [groups, names_eq hF hheads, List.map_map]
  exact (List.map_congr_left hgroup).trans (List.map_id _)

end FlatGrammar

namespace Grammar

/-- The flat form of a grammar with a start symbol and a body gives a name the bodies of the head
that is the name in brackets and, unless the name is bracketed, of the head that is the name itself,
in the order of the table.  If the start symbol and all heads are bracketed, its groups are the
entries of the table that have bodies, and the bracketed start name is the start symbol. -/
theorem productionsOf_flatten (g : Grammar) (S : Symbol) (hstart : g.start? = some S)
    (hbodies : ∃ X bodies, g.table.bodies? X = some bodies ∧ bodies ≠ []) :
    ∃ F, g.flatten = .ok F ∧
      (∀ name, F.productionsOf name =
        (g.table.entries.filter fun e => e.1 = .bracketed name ∨
          (⟨name⟩ : Symbol).isPlain = true ∧ e.1 = ⟨name⟩).flatMap fun e =>
            e.2.map fun body => ⟨name, body.map Symbol.item⟩) ∧
      (S.isBracketed = true → (∀ X ∈ g.table.heads, X.isBracketed = true) →
        F.groups = (g.table.entries.filter fun e => e.2 ≠ []) ∧ .bracketed F.start = S) := by
  obtain ⟨X, bodies, hfind, hne⟩ := hbodies
  refine ⟨_, flatten_eq_ok hstart hfind hne, fun name => ?_, fun hS hheads => ?_⟩
  · simp only [← Symbol.bareName_eq_iff]
    exact FlatGrammar.productionsOf_eq rfl name
  · exact ⟨FlatGrammar.groups_eq rfl hheads, Symbol.bracketed_bareName hS⟩

/-- Two heads with one name, and a head with the empty name. -/
def sharedNames : Grammar where
  table := .ofList [
    (⟨"S"⟩, [[⟨"<>"⟩, ⟨"S"⟩]]),
    (⟨"<>"⟩, [[]]),
    (⟨"<S>"⟩, [[⟨"<S>"⟩], [⟨"a"⟩]])]
  start? := some ⟨"<S>"⟩

theorem productionsOf_flatten_sharedNames :
    sharedNames.start? = some ⟨"<S>"⟩ ∧
      sharedNames.table.bodies? ⟨"<>"⟩ = some [[]] ∧
      (∃ F, sharedNames.flatten = .ok F ∧ F.productionsOf "S" =
        [⟨"S", [.nonterminal "", .terminal "S"]⟩, ⟨"S", [.nonterminal "S"]⟩,
          ⟨"S", [.terminal "a"]⟩]) ∧
      oddNames.start? = some ⟨"<S>"⟩ ∧ (∀ X ∈ oddNames.table.heads, X.isBracketed = true) ∧
      ∃ F, oddNames.flatten = .ok F ∧ .bracketed F.start = (⟨"<S>"⟩ : Symbol) ∧ F.groups =
        [(⟨"<S>"⟩, [[⟨"<>"⟩, ⟨"S"⟩], [⟨"<E>"⟩], [⟨"<U>"⟩]]), (⟨"<>"⟩, [[], [⟨"b"⟩, ⟨"<>"⟩]])] := by
  have hshared : sharedNames.table.bodies? ⟨"<>"⟩ = some [[]] := by decide
  have hodd : oddNames.table.bodies? ⟨"<>"⟩ = some [[], [⟨"b"⟩, ⟨"<>"⟩]] := by decide
  have hheads : ∀ X ∈ oddNames.table.heads, X.isBracketed = true := by decide
  obtain ⟨F, hF, hproductions, -⟩ := productionsOf_flatten sharedNames ⟨"<S>"⟩ rfl
    ⟨_, _, hshared, by decide⟩
  obtain ⟨F', hF', -, hgroups⟩ := productionsOf_flatten oddNames ⟨"<S>"⟩ rfl
    ⟨_, _, hodd, by decide⟩
  obtain ⟨hgroups, hS⟩ := hgroups (by decide) hheads
  refine ⟨rfl, hshared, ⟨F, hF, (hproductions "S").trans (by decide)⟩, rfl, hheads, F', hF', hS,
    hgroups.trans (by decide)⟩

end Grammar

end BraceGrammar
