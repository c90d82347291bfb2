import BraceGrammar.FileTree.Change
import BraceGrammar.Proofs.OrderedMap

/-!
# Walking and changing a tree

A walk that ends at a directory has gone through directories only, to where the names lead
(`walk_directory_iff`).  What each operation can do to a tree is said once: a new entry goes to the
end of its path (`newPlace_eq_ok`), making directories adds directories that the path passes, also
when it fails half way (`gainsDirectories_makeDirectories`), and renaming puts an entry at the end
of the path, where there was no directory (`rename_eq_ok`).

An entry with a name that nothing has is put where nothing was (`at?_child_unusedName`), and so the
tree is what it was when it is removed again (`remove_put`).
-/

namespace BraceGrammar

namespace FileTree

variable {t u v : FileTree} {p : Path} {here place : Place} {name : String} {names : List String}

/-! ## Places -/

namespace Place

theorem child_ne_root (here : Place) (name : String) : here.child name ≠ .root := by
  intro h
  have hreversed := congrArg Place.reversed h
  exact List.cons_ne_nil _ _ hreversed

theorem along_nil (here : Place) : here.along [] = here := rfl

theorem along_cons (here : Place) (name : String) (names : List String) :
    here.along (name :: names) = (here.follow name).along names := rfl

theorem along_append (here : Place) (xs ys : List String) :
    here.along (xs ++ ys) = (here.along xs).along ys := List.foldl_append

theorem follow_of_ne (hempty : name ≠ "") (hdot : name ≠ ".") (hdots : name ≠ "..") :
    here.follow name = here.child name := by
  simp [follow, hempty, hdot, hdots]

theorem along_of_empty (h : ∀ name ∈ names, name = "") : here.along names = here := by
  induction names with
  | nil => rfl
  | cons name names ih =>
      obtain ⟨rfl, hnames⟩ := List.forall_mem_cons.1 h
      exact ih hnames

theorem along_replicate_empty (here : Place) (n : Nat) :
    here.along (List.replicate n "") = here :=
  along_of_empty fun _ hname => List.eq_of_mem_replicate hname

end Place

namespace Path

theorem passes_start (p : Path) : p.Passes p.start := ⟨[], List.nil_prefix, rfl⟩

theorem Passes.mono {before names : List String} {q : Place} (h : Passes ⟨here, before⟩ q)
    (hbefore : before <+: names) : Passes ⟨here, names⟩ q := by
  obtain ⟨first, hfirst, hq⟩ := h
  exact ⟨first, hfirst.trans hbefore, hq⟩

end Path

/-- Where a path starts depends on the home only. -/
theorem path_eq_of_home (h : u.home = t.home) (text : String) : u.path text = t.path text := by
  rw [path, path, h]

/-! ## Walking -/

/-- All names from a place lead to directories. -/
def IsWay (t : FileTree) (here : Place) (names : List String) : Prop :=
  ∀ first, first <+: names → t.at? (here.along first) = some .directory

theorem isWay_nil : t.IsWay here [] ↔ t.at? here = some .directory := by
  constructor
  · intro h
    exact h [] List.nil_prefix
  · intro h first hfirst
    rw [List.prefix_nil.1 hfirst]
    exact h

theorem isWay_cons : t.IsWay here (name :: names) ↔
    t.at? here = some .directory ∧ t.IsWay (here.follow name) names := by
  constructor
  · intro h
    refine ⟨h [] List.nil_prefix, fun first hfirst => ?_⟩
    exact h (name :: first) (List.cons_prefix_cons.2 ⟨rfl, hfirst⟩)
  · rintro ⟨hhere, hnames⟩ first hfirst
    rcases List.prefix_cons_iff.1 hfirst with rfl | ⟨rest, rfl, hrest⟩
    · exact hhere
    · exact hnames rest hrest

theorem IsWay.at?_along (h : t.IsWay here names) : t.at? (here.along names) = some .directory :=
  h names (List.prefix_refl names)

theorem walk_cons (hhere : t.at? here = some .directory)
    (hlength : name.utf8ByteSize ≤ maxNameLength) (names : List String) :
    t.walk here (name :: names) = t.walk (here.follow name) names := by
  rw [walk, hhere]
  dsimp only
  unfold Place.follow
  split
  · rfl
  · split
    · rfl
    · rw [if_neg (by omega)]

/-- A name that a walk goes along is one of a directory, and not too long. -/
theorem walk_cons_eq_ok (h : t.walk here (name :: names) = .ok place) :
    t.at? here = some .directory ∧ name.utf8ByteSize ≤ maxNameLength := by
  rw [walk] at h
  split at h
  · cases h
  · cases h
  · next hhere =>
    refine ⟨hhere, ?_⟩
    have hshort (s : String) (hs : s.utf8ByteSize ≤ maxNameLength) (heq : name = s) :
        name.utf8ByteSize ≤ maxNameLength := heq ▸ hs
    split at h
    · next hname =>
      rcases hname with hname | hname
      · exact hshort "" (by decide) hname
      · exact hshort "." (by decide) hname
    · split at h
      · next hname => exact hshort ".." (by decide) hname
      · split at h
        · cases h
        · omega

/-- Walks that reach a directory go through directories to where the names lead. -/
theorem walk_directory_iff : (t.walk here names = .ok place ∧ t.at? place = some .directory) ↔
    t.IsWay here names ∧ (∀ name ∈ names, name.utf8ByteSize ≤ maxNameLength) ∧
      place = here.along names := by
  induction names generalizing here with
  | nil =>
      rw [walk, isWay_nil, Place.along_nil, Except.ok.injEq]
      constructor
      · rintro ⟨rfl, hdirectory⟩
        exact ⟨hdirectory, by simp, rfl⟩
      · rintro ⟨hdirectory, -, rfl⟩
        exact ⟨rfl, hdirectory⟩
  | cons name names ih =>
      rw [isWay_cons, List.forall_mem_cons, Place.along_cons]
      constructor
      · rintro ⟨hwalk, hdirectory⟩
        obtain ⟨hhere, hlength⟩ := walk_cons_eq_ok hwalk
        rw [walk_cons hhere hlength] at hwalk
        obtain ⟨hway, hlengths, hplace⟩ := ih.1 ⟨hwalk, hdirectory⟩
        exact ⟨⟨hhere, hway⟩, ⟨hlength, hlengths⟩, hplace⟩
      · rintro ⟨⟨hhere, hway⟩, ⟨hlength, hlengths⟩, hplace⟩
        rw [walk_cons hhere hlength]
        exact ih.2 ⟨hway, hlengths, hplace⟩

theorem walk_append {xs ys : List String} (h : t.walk here xs = .ok place) :
    t.walk here (xs ++ ys) = t.walk place ys := by
  induction xs generalizing here with
  | nil =>
      obtain rfl := Except.ok.inj h
      rfl
  | cons name xs ih =>
      obtain ⟨hhere, hlength⟩ := walk_cons_eq_ok h
      rw [walk_cons hhere hlength] at h
      rw [List.cons_append, walk_cons hhere hlength, ih h]

/-! ## New places -/

/-- A path leads to a place for a new entry: along some names to a directory that is there, then by
one name more, behind which there may be empty ones. -/
structure IsNewPlace (t : FileTree) (p : Path) (before : List String) (last : String) : Prop where
  check : p.check = .ok ()
  names : ∃ n, p.names = before ++ last :: List.replicate n ""
  way : t.IsWay p.start before
  short : ∀ name ∈ before, name.utf8ByteSize ≤ maxNameLength
  last_short : last.utf8ByteSize ≤ maxNameLength
  last_ne : last ≠ "" ∧ last ≠ "." ∧ last ≠ ".."

namespace IsNewPlace

variable {before : List String} {last : String}

theorem place_eq (h : t.IsNewPlace p before last) :
    p.place = (p.start.along before).child last := by
  obtain ⟨n, hnames⟩ := h.names
  rw [Path.place, hnames, Place.along_append, Place.along_cons, Place.along_replicate_empty,
    Place.follow_of_ne h.last_ne.1 h.last_ne.2.1 h.last_ne.2.2]

theorem place_ne_root (h : t.IsNewPlace p before last) : p.place ≠ .root := by
  rw [h.place_eq]
  exact Place.child_ne_root _ _

end IsNewPlace

theorem eq_empty_of_mem_takeWhile (h : name ∈ names.takeWhile (· = "")) : name = "" := by
  simpa using List.all_eq_true.1 List.all_takeWhile name h

/-- The last name that is not empty, with what is before and behind it. -/
theorem eq_append_of_dropWhile {reversed : List String} {last : String}
    (h : names.reverse.dropWhile (· = "") = last :: reversed) :
    last ≠ "" ∧ ∃ n, names = reversed.reverse ++ last :: List.replicate n "" := by
  have hlast : last ≠ "" := by
    have hhead := List.head?_dropWhile_not (· = "") names.reverse
    rw [h] at hhead
    simpa using hhead
  have hempty : names.reverse.takeWhile (· = "") =
      List.replicate (names.reverse.takeWhile (· = "")).length "" := by
    rw [List.eq_replicate_iff]
    exact ⟨rfl, fun name hname => eq_empty_of_mem_takeWhile hname⟩
  have hreverse : names.reverse =
      List.replicate (names.reverse.takeWhile (· = "")).length "" ++ last :: reversed := by
    rw [← hempty, ← h, List.takeWhile_append_dropWhile]
  refine ⟨hlast, (names.reverse.takeWhile (· = "")).length, ?_⟩
  have hnames := congrArg List.reverse hreverse
  simpa using hnames

/-- The only place for a new entry is the end of its path. -/
theorem newPlace_eq_ok {refusal : Fault} (h : t.newPlace p refusal = .ok place) :
    place = p.place ∧ ∃ before last, t.IsNewPlace p before last := by
  unfold newPlace at h
  cases hcheck : p.check with
  | error e => simp [hcheck, bind, Except.bind] at h
  | ok _ =>
      simp only [hcheck, bind, Except.bind] at h
      split at h
      · cases h
      · next last reversed hdrop =>
        cases hwalk : t.walk p.start reversed.reverse with
        | error e => simp [hwalk] at h
        | ok parent =>
            simp only [hwalk] at h
            split at h
            · cases h
            · cases h
            · next hparent =>
              split at h
              · cases h
              · next hdots =>
                split at h
                · cases h
                · next hlength =>
                  obtain ⟨hway, hshort, rfl⟩ := walk_directory_iff.1 ⟨hwalk, hparent⟩
                  obtain ⟨hempty, hnames⟩ := eq_append_of_dropWhile hdrop
                  rw [not_or] at hdots
                  have hnew : t.IsNewPlace p reversed.reverse last :=
                    ⟨hcheck, hnames, hway, hshort, by omega, hempty, hdots⟩
                  refine ⟨?_, reversed.reverse, last, hnew⟩
                  rw [hnew.place_eq]
                  exact (Except.ok.inj h).symm

/-! ## Making directories -/

/-- Trees that differ in their entries only. -/
theorem frame_trans (h : u = { t with entries := u.entries })
    (h' : v = { u with entries := v.entries }) : v = { t with entries := v.entries } := by
  rw [h] at h'
  exact h'

namespace GainsDirectories

theorem refl (t : FileTree) (p : Path) : t.GainsDirectories t p := ⟨rfl, fun _ => .inl rfl⟩

theorem trans (h : t.GainsDirectories u p) (h' : u.GainsDirectories v p) :
    t.GainsDirectories v p := by
  refine ⟨frame_trans h.frame h'.frame, fun q => ?_⟩
  rcases h'.places q with hu | ⟨hnone, hv, hq⟩
  · rw [hu]
    exact h.places q
  · rcases h.places q with ht | ⟨-, hu, -⟩
    · exact .inr ⟨ht ▸ hnone, hv, hq⟩
    · rw [hu] at hnone
      cases hnone

theorem mono {before names : List String} (h : t.GainsDirectories u ⟨here, before⟩)
    (hbefore : before <+: names) : t.GainsDirectories u ⟨here, names⟩ := by
  refine ⟨h.frame, fun q => ?_⟩
  rcases h.places q with heq | ⟨hnone, hu, hq⟩
  · exact .inl heq
  · exact .inr ⟨hnone, hu, hq.mono hbefore⟩

end GainsDirectories

theorem gainsDirectories_makeDirectory (h : t.makeDirectory p = .ok u) :
    t.GainsDirectories u p := by
  unfold makeDirectory at h
  cases hplace : t.newPlace p .alreadyExists with
  | error e => simp [hplace, bind, Except.bind] at h
  | ok place =>
      simp only [hplace, bind, Except.bind] at h
      split at h
      · cases h
      · next hnone =>
        split at h
        · cases h
        · obtain ⟨rfl, before, last, hnew⟩ := newPlace_eq_ok hplace
          obtain rfl := Except.ok.inj h
          rw [Option.not_isSome_iff_eq_none] at hnone
          refine ⟨rfl, fun q => ?_⟩
          rw [at?_put t hnew.place_ne_root]
          by_cases hq : q = p.place
          · subst hq
            exact .inr ⟨hnone, if_pos rfl, p.names, List.prefix_refl _, rfl⟩
          · exact .inl (if_neg hq)

theorem gainsDirectories_ensureDirectory (t : FileTree) (p : Path) :
    t.GainsDirectories (t.ensureDirectory p).1 p := by
  unfold ensureDirectory
  split
  · next h => exact gainsDirectories_makeDirectory h
  · exact .refl t p
  · exact .refl t p

theorem gainsDirectories_ensureAll (t : FileTree) (start : Place) (reversed : List String) :
    t.GainsDirectories (t.ensureAll start reversed).1 ⟨start, reversed.reverse⟩ := by
  induction reversed with
  | nil => exact .refl t _
  | cons last before ih =>
      have hbefore : t.GainsDirectories (t.ensureAll start before).1
          ⟨start, (last :: before).reverse⟩ := by
        refine ih.mono ?_
        rw [List.reverse_cons]
        exact List.prefix_append _ _
      have hown (u : FileTree) (h : t.GainsDirectories u ⟨start, (last :: before).reverse⟩) :
          t.GainsDirectories (if last = "." then (u, none) else
            u.ensureDirectory ⟨start, (last :: before).reverse⟩).1
            ⟨start, (last :: before).reverse⟩ := by
        split
        · exact h
        · exact h.trans (gainsDirectories_ensureDirectory u _)
      rw [ensureAll]
      split
      · exact hbefore
      · split
        · exact gainsDirectories_ensureDirectory t _
        · split
          · next u hall =>
            rw [hall] at hbefore
            exact hown u hbefore
          · next u hall =>
            rw [hall] at hbefore
            exact hown u hbefore
          · next u fault hall =>
            rw [hall] at hbefore
            exact hbefore

theorem gainsDirectories_makeDirectories (t : FileTree) (p : Path) :
    t.GainsDirectories (t.makeDirectories p).1 p := by
  unfold makeDirectories
  dsimp only
  split
  · exact .refl t p
  · have hall := gainsDirectories_ensureAll t p.start p.names.reverse
    rwa [List.reverse_reverse] at hall

/-- The directory that a path ends in is on the path. -/
theorem Path.Passes.of_parent? {parent : Path} (hparent : p.parent? = some parent) {q : Place}
    (hq : parent.Passes q) : p.Passes q := by
  unfold Path.parent? at hparent
  split at hparent
  · cases hparent
  · cases hparent
  · next before _ hreverse =>
    split at hparent
    · -- the parent is the root, which the path starts from
      obtain rfl := Option.some.inj hparent
      obtain ⟨first, hfirst, rfl⟩ := hq
      have hempty : ∀ name ∈ first, name = "" := by
        intro name hname
        simpa using hfirst.subset hname
      rw [Place.along_of_empty hempty]
      exact p.passes_start
    · next names hdrop =>
      obtain rfl := Option.some.inj hparent
      have hsuffix : before.dropWhile (· = "") <:+ p.names.reverse :=
        (List.dropWhile_suffix _).trans (hreverse ▸ List.suffix_cons _ before)
      refine hq.mono ?_
      rw [← List.reverse_suffix, List.reverse_reverse]
      exact hsuffix

theorem gainsDirectories_parent (t : FileTree) (p : Path) :
    t.GainsDirectories (p.parent?.elim (t, none) t.makeDirectories).1 p := by
  cases hparent : p.parent? with
  | none => exact .refl t p
  | some parent =>
      have hgains := gainsDirectories_makeDirectories t parent
      refine ⟨hgains.frame, fun q => ?_⟩
      rcases hgains.places q with heq | ⟨hnone, hu, hq⟩
      · exact .inl heq
      · exact .inr ⟨hnone, hu, hq.of_parent? hparent⟩

/-! ## Files aside -/

theorem length_le_total (count : String → Nat) (h : name ∈ names) :
    count name ≤ total count names := by
  induction names with
  | nil => cases h
  | cons first names ih =>
      change count name ≤ count first + total count names
      rcases List.mem_cons.1 h with rfl | h
      · omega
      · have hle := ih h
        omega

/-- Nothing is at a place with a name that is not in use. -/
theorem at?_child_unusedName (t : FileTree) (here : Place) :
    t.at? (here.child t.unusedName) = none := by
  rw [at?, if_neg (Place.child_ne_root _ _), ← Option.not_isSome_iff_eq_none,
    ← OrderedMap.mem_keys_iff]
  intro hmem
  have hname : t.unusedName ∈ t.entries.keys.flatMap (·.reversed) :=
    List.mem_flatMap.2 ⟨_, hmem, List.mem_cons_self⟩
  have hle := length_le_total String.length hname
  have hlength : t.unusedName.length =
      11 + total String.length (t.entries.keys.flatMap (·.reversed)) + 4 := by
    simp [unusedName]
    rfl
  omega

theorem ne_root_of_at?_eq_none (h : t.at? place = none) : place ≠ .root := by
  rintro rfl
  cases h

/-- What is put where nothing was is gone when it is removed. -/
theorem remove_put (h : t.at? place = none) (e : Entry) : (t.put place e).remove place = t := by
  have hfind : t.entries.find? place = none := by
    rwa [at?, if_neg (ne_root_of_at?_eq_none h)] at h
  have hnotMem : place ∉ t.entries.entries.map Prod.fst := by
    intro hmem
    have hsome := (t.entries.mem_keys_iff place).1 hmem
    rw [hfind] at hsome
    cases hsome
  have hentries : ((t.entries.insert place e).erase place).entries = t.entries.entries := by
    change (OrderedMap.setEntry place e t.entries.entries).filter (fun e => e.1 ≠ place) = _
    rw [OrderedMap.setEntry_of_notMem hnotMem, List.filter_append,
      List.filter_cons_of_neg (by simp), List.filter_nil, List.append_nil, List.filter_eq_self]
    intro entry hentry
    have hne : entry.1 ≠ place := fun heq => hnotMem (heq ▸ List.mem_map_of_mem hentry)
    exact decide_eq_true hne
  unfold remove put
  dsimp only
  rw [OrderedMap.ext hentries]

/-! ## A file at the end of a path -/

theorem IsWay.mono (h : t.IsWay here names)
    (hkeep : ∀ q, t.at? q = some .directory → u.at? q = some .directory) : u.IsWay here names :=
  fun first hfirst => hkeep _ (h first hfirst)

/-- A file that is put where no directory is leaves the directories as they are. -/
theorem directory_put_iff (h : t.at? place ≠ some .directory) (content : Bytes) {q : Place} :
    (t.put place (.file content)).at? q = some .directory ↔ t.at? q = some .directory := by
  have hroot : place ≠ .root := by
    rintro rfl
    exact h rfl
  rw [at?_put t hroot]
  by_cases hq : q = place
  · subst hq
    simp [h]
  · rw [if_neg hq]

namespace IsNewPlace

variable {before : List String} {last : String}

theorem mono (h : t.IsNewPlace p before last)
    (hkeep : ∀ q, t.at? q = some .directory → u.at? q = some .directory) :
    u.IsNewPlace p before last :=
  { h with way := h.way.mono hkeep }

theorem names_eq (h : t.IsNewPlace p before last) (hlast : p.names.getLast? ≠ some "") :
    p.names = before ++ [last] := by
  obtain ⟨n, hnames⟩ := h.names
  cases n with
  | zero => exact hnames
  | succ n =>
      refine absurd ?_ hlast
      simp [hnames, List.getLast?_append, List.getLast?_cons, List.getLast?_replicate]

theorem walk_eq (h : t.IsNewPlace p before last) (hnames : p.names = before ++ [last]) :
    t.walk p.start p.names = .ok p.place := by
  have hbefore := walk_directory_iff.2 ⟨h.way, h.short, rfl⟩
  have hlast : (p.start.along before).follow last = p.place := by
    rw [h.place_eq, Place.follow_of_ne h.last_ne.1 h.last_ne.2.1 h.last_ne.2.2]
  rw [hnames, walk_append hbefore.1, walk_cons h.way.at?_along h.last_short, hlast]
  rfl

/-- The content of a path is that of the file at its end. -/
theorem at?_of_content? (h : t.IsNewPlace p before last) (hnames : p.names = before ++ [last])
    {content : Bytes} (hfound : t.content? p = some content) :
    t.at? p.place = some (.file content) := by
  simp only [content?, look, h.check, h.walk_eq hnames, bind, Except.bind] at hfound
  cases hat : t.at? p.place with
  | none => simp [hat] at hfound
  | some e =>
      cases e with
      | file found => simpa [hat] using hfound
      | directory => simp [hat] at hfound

theorem gainsFile_put (h : t.IsNewPlace p before last) (hnames : p.names = before ++ [last])
    (hvacant : t.at? p.place ≠ some .directory) (content : Bytes) :
    t.GainsFile (t.put p.place (.file content)) p content := by
  have hat := at?_put t h.place_ne_root (.file content)
  have hnew : (t.put p.place (.file content)).IsNewPlace p before last :=
    h.mono fun _ hq => (directory_put_iff hvacant content).2 hq
  refine ⟨rfl, ?_, hvacant, ?_, ?_⟩
  · have hfile : (t.put p.place (.file content)).at? p.place = some (.file content) := by
      rw [hat, if_pos rfl]
    simp [content?, look, h.check, hnew.walk_eq hnames, hfile, bind, Except.bind]
  · rintro q ⟨first, hfirst, rfl⟩ hne
    rw [hnames, List.prefix_concat_iff] at hfirst
    rcases hfirst with rfl | hfirst
    · rw [← hnames] at hne
      exact absurd rfl hne
    · exact hnew.way first hfirst
  · intro q hq
    left
    rw [hat, if_neg hq]

end IsNewPlace

theorem GainsDirectories.trans_gainsFile {content : Bytes} (h : t.GainsDirectories u p)
    (h' : u.GainsFile v p content) : t.GainsFile v p content := by
  refine ⟨frame_trans h.frame h'.frame, h'.found, ?_, h'.passed, fun q hq => ?_⟩
  · intro hdirectory
    rcases h.places p.place with hu | ⟨hnone, -, -⟩
    · exact h'.vacant (hu.trans hdirectory)
    · rw [hdirectory] at hnone
      cases hnone
  · rcases h'.others q hq with hv | ⟨hnone, hv, hpasses⟩
    · rw [hv]
      exact h.places q
    · rcases h.places q with hu | ⟨-, hu, -⟩
      · exact .inr ⟨hu ▸ hnone, hv, hpasses⟩
      · rw [hu] at hnone
        cases hnone

/-- Renaming moves an entry to the end of a path, where no directory is. -/
theorem rename_eq_ok {source : Place} (h : t.rename source p = .ok u) :
    ∃ before last e, t.IsNewPlace p before last ∧ p.names = before ++ [last] ∧
      t.at? p.place ≠ some .directory ∧ t.at? source = some e ∧
      u = (t.remove source).put p.place e := by
  unfold rename at h
  cases hplace : t.newPlace p .busy with
  | error e => simp [hplace, bind, Except.bind] at h
  | ok place =>
      simp only [hplace, bind, Except.bind] at h
      split at h
      · cases h
      · next hlast =>
        obtain ⟨rfl, before, last, hnew⟩ := newPlace_eq_ok hplace
        split at h
        · cases h
        · next e hsource hvacant =>
          obtain rfl := Except.ok.inj h
          exact ⟨before, last, e, hnew, hnew.names_eq hlast, hvacant, hsource, rfl⟩
        · cases h

/-- Renaming a file that is written aside only puts it at the end of its path. -/
theorem exists_isNewPlace_of_rename {aside : Place} {content : Bytes} (haside : t.at? aside = none)
    (h : (t.put aside (.file content)).rename aside p = .ok u) :
    ∃ before last, t.IsNewPlace p before last ∧ p.names = before ++ [last] ∧
      t.at? p.place ≠ some .directory ∧ u = t.put p.place (.file content) := by
  obtain ⟨before, last, e, hnew, hnames, hvacant, hsource, rfl⟩ := rename_eq_ok h
  have hroot := ne_root_of_at?_eq_none haside
  have hvacantAside : t.at? aside ≠ some .directory := by simp [haside]
  obtain rfl : e = .file content := by
    rw [at?_put t hroot, if_pos rfl] at hsource
    exact (Option.some.inj hsource).symm
  rw [Ne, directory_put_iff hvacantAside] at hvacant
  rw [remove_put haside]
  exact ⟨before, last, hnew.mono fun _ hq => (directory_put_iff hvacantAside content).1 hq, hnames,
    hvacant, rfl⟩

/-- A file that is written aside and then renamed is at the end of its path, and nothing is left
aside. -/
theorem gainsFile_of_rename {aside : Place} {content : Bytes} (haside : t.at? aside = none)
    (h : (t.put aside (.file content)).rename aside p = .ok u) : t.GainsFile u p content := by
  obtain ⟨before, last, hnew, hnames, hvacant, rfl⟩ := exists_isNewPlace_of_rename haside h
  exact hnew.gainsFile_put hnames hvacant content

end FileTree

end BraceGrammar
