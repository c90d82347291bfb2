import BraceGrammar.Proofs.FileTree

/-!
# Targets whose directory is there

When the directory of a target is there, and a file aside can be made in it (`IsTarget`), it does
not have to be made and the walk to it succeeds (`IsNewPlace.parent_eq`), and the file that was
written aside can be renamed to the target (`IsNewPlace.rename_eq`).  Only to a target, and it is
one again then (`isTarget_of_rename`).
-/

namespace BraceGrammar

namespace FileTree

variable {t : FileTree} {p : Path} {here : Place} {before : List String} {last : String}

/-! ## Looking at directories -/

theorem IsWay.of_isPrefix {xs ys : List String} (h : t.IsWay here ys) (hxs : xs <+: ys) :
    t.IsWay here xs :=
  fun first hfirst => h first (hfirst.trans hxs)

theorem total_append (count : String → Nat) (xs ys : List String) :
    total count (xs ++ ys) = total count xs + total count ys := by
  induction xs with
  | nil => exact (Nat.zero_add _).symm
  | cons x xs ih =>
      change count x + total count (xs ++ ys) = count x + total count xs + total count ys
      omega

theorem Path.check_eq_ok_iff : p.check = .ok () ↔
    (∀ name ∈ p.names, '\x00' ∉ name.toList) ∧ p.names ≠ [""] ∧ p.length ≤ maxPathLength := by
  have hzero : (p.names.any fun name => name.toList.contains '\x00') = false ↔
      ∀ name ∈ p.names, '\x00' ∉ name.toList := by
    simp
  rw [← hzero]
  unfold Path.check
  cases p.names.any fun name => name.toList.contains '\x00' with
  | true => simp
  | false =>
      by_cases hempty : p.names = [""]
      · simp [hempty]
      · by_cases hlength : maxPathLength < p.length
        · simp [hempty, hlength]
        · simp [hempty, hlength]
          omega

theorem concat_ne_singleton_empty (h : last ≠ "") (names : List String) :
    names ++ [last] ≠ [""] := by
  intro heq
  have hlast := congrArg List.getLast? heq
  rw [List.getLast?_concat] at hlast
  exact h (Option.some.inj hlast)

/-- A path that goes only a part of the way is no worse. -/
theorem Path.check_of_isPrefix (h : p.check = .ok ()) {names : List String}
    (hnames : names <+: p.names) (hne : names ≠ [""]) : Path.check ⟨p.start, names⟩ = .ok () := by
  rw [Path.check_eq_ok_iff] at h ⊢
  obtain ⟨hzero, -, hlength⟩ := h
  refine ⟨fun name hname => hzero name (hnames.subset hname), hne, ?_⟩
  obtain ⟨others, hothers⟩ := hnames
  unfold Path.length at hlength ⊢
  rw [← hothers, total_append, List.length_append] at hlength
  dsimp only
  omega

theorem look_of_isWay (hcheck : p.check = .ok ()) (hway : t.IsWay p.start p.names)
    (hshort : ∀ name ∈ p.names, name.utf8ByteSize ≤ maxNameLength) :
    t.look p = .ok .directory := by
  obtain ⟨hwalk, hdirectory⟩ := walk_directory_iff.2 ⟨hway, hshort, rfl⟩
  simp [look, hcheck, hwalk, hdirectory, bind, Except.bind]

/-! ## Directories that are there -/

/-- The place for a new entry, when the last name has a directory before it. -/
theorem newPlace_of_names {n : Nat} (hcheck : p.check = .ok ())
    (hnames : p.names = before ++ last :: List.replicate n "") (hempty : last ≠ "")
    (hway : t.IsWay p.start before) (hshort : ∀ name ∈ before, name.utf8ByteSize ≤ maxNameLength)
    (hlast : last.utf8ByteSize ≤ maxNameLength) (refusal : Fault) :
    t.newPlace p refusal =
      if last = "." ∨ last = ".." then .error refusal
      else .ok ((p.start.along before).child last) := by
  obtain ⟨hwalk, hdirectory⟩ := walk_directory_iff.2 ⟨hway, hshort, rfl⟩
  have hdrop : p.names.reverse.dropWhile (· = "") = last :: before.reverse := by
    have hall : ∀ name ∈ List.replicate n "", decide (name = "") = true := by
      intro name hname
      exact decide_eq_true (List.eq_of_mem_replicate hname)
    rw [hnames, List.reverse_append, List.reverse_cons, List.reverse_replicate, List.append_assoc,
      List.dropWhile_append_of_pos hall, List.singleton_append,
      List.dropWhile_cons_of_neg (by simpa using hempty)]
  unfold newPlace
  simp only [hcheck, hdrop, bind, Except.bind, List.reverse_reverse, hwalk, hdirectory]
  rw [if_neg (show ¬maxNameLength < last.utf8ByteSize by omega)]

theorem IsNewPlace.newPlace_eq (h : t.IsNewPlace p before last) (refusal : Fault) :
    t.newPlace p refusal = .ok p.place := by
  obtain ⟨n, hnames⟩ := h.names
  have hdots : ¬(last = "." ∨ last = "..") := by
    rintro (hdot | hdots)
    · exact h.last_ne.2.1 hdot
    · exact h.last_ne.2.2 hdots
  rw [newPlace_of_names h.check hnames h.last_ne.1 h.way h.short h.last_short, if_neg hdots,
    h.place_eq]

theorem ensureDirectory_of_isWay (hcheck : p.check = .ok ()) (hnames : p.names = before ++ [last])
    (hempty : last ≠ "") (hway : t.IsWay p.start p.names)
    (hshort : ∀ name ∈ p.names, name.utf8ByteSize ≤ maxNameLength) :
    t.ensureDirectory p = (t, none) := by
  have hdirectory : t.isDirectory p = true := by
    rw [isDirectory, look_of_isWay hcheck hway hshort]
  have hmake : t.makeDirectory p = .error .alreadyExists := by
    have hbefore : before <+: p.names := hnames ▸ List.prefix_append before [last]
    have hplace := newPlace_of_names (n := 0) hcheck hnames hempty (hway.of_isPrefix hbefore)
      (fun name hname => hshort name (hbefore.subset hname))
      (hshort last (by simp [hnames])) .alreadyExists
    unfold makeDirectory
    rw [hplace]
    by_cases hdots : last = "." ∨ last = ".."
    · simp [hdots, bind, Except.bind]
    · have hthere : t.at? ((p.start.along before).child last) = some .directory := by
        rw [not_or] at hdots
        have hat := hway.at?_along
        rw [hnames, Place.along_append, Place.along_cons,
          Place.follow_of_ne hempty hdots.1 hdots.2] at hat
        exact hat
      simp [hdots, hthere, bind, Except.bind]
  unfold ensureDirectory
  rw [hmake]
  dsimp only
  rw [if_pos hdirectory]

/-- Making directories that are there changes nothing. -/
theorem makeDirectories_of_isWay (hcheck : p.check = .ok ()) (hnames : p.names = before ++ [last])
    (hempty : last ≠ "") (hway : t.IsWay p.start p.names)
    (hshort : ∀ name ∈ p.names, name.utf8ByteSize ≤ maxNameLength) :
    t.makeDirectories p = (t, none) := by
  have hreverse : p.names.reverse = last :: before.reverse := by
    rw [hnames, List.reverse_append, List.reverse_singleton, List.singleton_append]
  have habove : before.reverse.dropWhile (· = "") = [] ∨
      t.isThere ⟨p.start, (before.reverse.dropWhile (· = "")).reverse⟩ = true := by
    cases hdrop : before.reverse.dropWhile (· = "") with
    | nil => exact .inl rfl
    | cons name above =>
        right
        obtain ⟨hname, n, hbefore⟩ := eq_append_of_dropWhile hdrop
        have habove : above.reverse ++ [name] <+: p.names := by
          refine ⟨List.replicate n "" ++ [last], ?_⟩
          simp [hnames, hbefore]
        have hcheck' := Path.check_of_isPrefix hcheck habove
          (concat_ne_singleton_empty hname above.reverse)
        rw [List.reverse_cons, isThere,
          look_of_isWay hcheck' (hway.of_isPrefix habove)
            fun name hname => hshort name (habove.subset hname)]
  have hfew : t.missing p.start (last :: before.reverse) ≤ t.mostAbove + 1 := by
    rw [missing]
    simp only [hempty, if_false, habove, if_true]
    exact Nat.le_add_left 1 _
  unfold makeDirectories
  dsimp only
  rw [hreverse, if_neg (by omega), ensureAll]
  simp only [hempty, if_false, habove, if_true]
  have hpath : (⟨p.start, (last :: before.reverse).reverse⟩ : Path) = p := by
    rw [← hreverse, List.reverse_reverse]
  rw [hpath, ensureDirectory_of_isWay hcheck hnames hempty hway hshort]

/-! ## The directory of a target -/

/-- A path of one name has no parent; slashes alone before the last name stand for where the path
starts; else the parent ends with the last name before it that is not empty. -/
theorem Path.parent?_cases (hnames : p.names = before ++ [last]) :
    (before = [] ∧ p.parent? = none) ∨
      ((∀ name ∈ before, name = "") ∧ p.parent? = some ⟨p.start, ["", ""]⟩) ∨
      ∃ above name n, name ≠ "" ∧ before = above ++ name :: List.replicate n "" ∧
        p.parent? = some ⟨p.start, above ++ [name]⟩ := by
  have hreverse : p.names.reverse = last :: before.reverse := by
    rw [hnames, List.reverse_append, List.reverse_singleton, List.singleton_append]
  unfold Path.parent?
  rw [hreverse]
  cases hbefore : before.reverse with
  | nil => exact .inl ⟨List.reverse_eq_nil_iff.1 hbefore, rfl⟩
  | cons first others =>
      dsimp only
      rw [← hbefore]
      right
      cases hdrop : before.reverse.dropWhile (· = "") with
      | nil =>
          refine .inl ⟨fun name hname => ?_, rfl⟩
          have hsplit := List.takeWhile_append_dropWhile (p := (· = "")) (l := before.reverse)
          rw [hdrop, List.append_nil] at hsplit
          rw [← List.mem_reverse, ← hsplit] at hname
          exact eq_empty_of_mem_takeWhile hname
      | cons name reversed =>
          obtain ⟨hname, n, heq⟩ := eq_append_of_dropWhile hdrop
          refine .inr ⟨reversed.reverse, name, n, hname, heq, ?_⟩
          dsimp only
          rw [List.reverse_cons]

/-- A path of one name starts from where paths start. -/
theorem start_path_of_names {text name : String} (h : (t.path text).names = [name]) :
    (t.path text).start = t.home := by
  unfold path at h ⊢
  dsimp only at h ⊢
  split
  · next hslash =>
    obtain ⟨rest, htext⟩ := List.head?_eq_some_iff.1 hslash
    rw [splitSlashes, htext, List.splitOn_cons_eq_if_modifyHead, if_pos (by simp), List.map_cons,
      List.cons.injEq, List.map_eq_nil_iff] at h
    exact absurd h.2 (List.splitOn_ne_nil _ _)
  · rfl

theorem GainsDirectories.start_path_of_names (h : t.GainsDirectories u p) {text name : String}
    (hname : (t.path text).names = [name]) : (t.path text).start = u.home :=
  (FileTree.start_path_of_names hname).trans h.home.symm

/-- A file can be put at the end of a path: the directory is there, a file aside with a name of some
length can be made in it, and what is at the end is no directory. -/
def IsTarget (t : FileTree) (p : Path) (length : Nat) : Prop :=
  ∃ before last, t.IsNewPlace p before last ∧ p.names = before ++ [last] ∧
    t.at? p.place ≠ some .directory ∧ (p.start.along before).hasRoom length = true ∧
    t.refusal? (p.start.along before) = none

/-- A file can be written at the end of a path: the directory is there or can be made, and the path
is a target then. -/
def CanWrite (t : FileTree) (p : Path) (length : Nat) : Prop :=
  ∃ u, p.parent?.elim (t, none) t.makeDirectories = (u, none) ∧ u.IsTarget p length

namespace IsNewPlace

variable (h : t.IsNewPlace p before last) (hnames : p.names = before ++ [last])

include h hnames

/-- The directory of a target that is there is found, and none has to be made. -/
theorem parent_eq (hhome : ∀ name, p.names = [name] → p.start = t.home) :
    p.parent?.elim (t, none) t.makeDirectories = (t, none) ∧
      (p.parent?.elim (.ok t.home) fun q => t.walk q.start q.names) =
        .ok (p.start.along before) := by
  rcases Path.parent?_cases hnames with ⟨rfl, hparent⟩ | ⟨hempty, hparent⟩ |
    ⟨above, name, n, hname, rfl, hparent⟩
  · rw [hparent]
    exact ⟨rfl, congrArg Except.ok (hhome last hnames).symm⟩
  · have hstart : t.at? p.start = some .directory := h.way [] List.nil_prefix
    have hlength : "".utf8ByteSize ≤ maxNameLength := by decide
    rw [hparent, Place.along_of_empty hempty]
    refine ⟨rfl, ?_⟩
    change t.walk p.start ["", ""] = .ok p.start
    rw [walk_cons hstart hlength]
    exact walk_cons hstart hlength []
  · rw [List.append_cons above] at h hnames ⊢
    have hbefore : above ++ [name] <+: above ++ [name] ++ List.replicate n "" :=
      List.prefix_append _ _
    have hall : above ++ [name] <+: p.names := hbefore.trans (hnames ▸ List.prefix_append _ [last])
    have hway := h.way.of_isPrefix hbefore
    have hshort : ∀ other ∈ above ++ [name], other.utf8ByteSize ≤ maxNameLength :=
      fun other hother => h.short other (hbefore.subset hother)
    have hcheck := Path.check_of_isPrefix h.check hall (concat_ne_singleton_empty hname above)
    rw [hparent, Place.along_append, Place.along_replicate_empty]
    refine ⟨?_, (walk_directory_iff.2 ⟨hway, hshort, rfl⟩).1⟩
    exact makeDirectories_of_isWay hcheck rfl hname hway hshort

/-- A file aside can be renamed to a target that is no directory. -/
theorem rename_eq {aside : Place} (haside : t.at? aside = none)
    (hvacant : t.at? p.place ≠ some .directory) (content : Bytes) :
    ∃ u, (t.put aside (.file content)).rename aside p = .ok u := by
  have hroot := ne_root_of_at?_eq_none haside
  have hvacantAside : t.at? aside ≠ some .directory := by simp [haside]
  have hnew : (t.put aside (.file content)).IsNewPlace p before last :=
    h.mono fun _ hq => (directory_put_iff hvacantAside content).2 hq
  have hlast : p.names.getLast? ≠ some "" := by
    rw [hnames, List.getLast?_concat]
    intro heq
    exact h.last_ne.1 (Option.some.inj heq)
  rw [Ne, ← directory_put_iff hvacantAside content] at hvacant
  have hsource : (t.put aside (.file content)).at? aside = some (.file content) := by
    rw [at?_put t hroot, if_pos rfl]
  unfold rename
  simp only [hnew.newPlace_eq, bind, Except.bind, hlast, if_false, hsource]
  exact ⟨_, rfl⟩

end IsNewPlace

/-- Where a file that was written aside is renamed to there is a target, before and after. -/
theorem isTarget_of_rename {aside directory : Place} {content : Bytes} {u : FileTree} {length : Nat}
    (haside : t.at? aside = none)
    (hrename : (t.put aside (.file content)).rename aside p = .ok u)
    (hhome : ∀ name, p.names = [name] → p.start = t.home)
    (hwalk : (p.parent?.elim (.ok t.home) fun q => t.walk q.start q.names) = .ok directory)
    (hroom : directory.hasRoom length = true) (hopen : t.refusal? directory = none) :
    t.IsTarget p length ∧ u.IsTarget p length := by
  obtain ⟨before, last, hnew, hnames, hvacant, rfl⟩ := exists_isNewPlace_of_rename haside hrename
  have hfile : (t.put p.place (.file content)).at? p.place = some (.file content) := by
    rw [at?_put t hnew.place_ne_root, if_pos rfl]
  obtain rfl : p.start.along before = directory :=
    Except.ok.inj ((hnew.parent_eq hnames hhome).2.symm.trans hwalk)
  have hnew' : (t.put p.place (.file content)).IsNewPlace p before last :=
    hnew.mono fun _ hq => (directory_put_iff hvacant content).2 hq
  exact ⟨⟨before, last, hnew, hnames, hvacant, hroom, hopen⟩,
    before, last, hnew', hnames, by simp [hfile], hroom, hopen⟩

/-- Nothing has to be made for a target. -/
theorem IsTarget.canWrite {length : Nat} (h : t.IsTarget p length)
    (hhome : ∀ name, p.names = [name] → p.start = t.home) : t.CanWrite p length := by
  obtain ⟨before, last, hnew, hnames, -⟩ := id h
  exact ⟨t, (hnew.parent_eq hnames hhome).1, h⟩

/-- Writing the content that a target has changes nothing. -/
theorem GainsFile.at?_eq {u : FileTree} {content : Bytes} {length : Nat}
    (h : t.GainsFile u p content) (htarget : t.IsTarget p length)
    (hfound : t.content? p = some content) (q : Place) : u.at? q = t.at? q := by
  obtain ⟨before, last, hnew, hnames, hvacant, -⟩ := htarget
  have hkeep : ∀ q, t.at? q = some .directory → u.at? q = some .directory := by
    intro q hq
    have hne : q ≠ p.place := fun heq => hvacant (heq ▸ hq)
    rcases h.others q hne with hu | ⟨hnone, -, -⟩
    · rw [hu, hq]
    · simp [hq] at hnone
  by_cases hq : q = p.place
  · rw [hq, (hnew.mono hkeep).at?_of_content? hnames h.found, hnew.at?_of_content? hnames hfound]
  · rcases h.others q hq with hu | ⟨hnone, -, first, hfirst, rfl⟩
    · exact hu
    · -- all directories that the path passes were there
      rw [hnames, List.prefix_concat_iff] at hfirst
      rcases hfirst with rfl | hfirst
      · rw [← hnames] at hq
        exact absurd rfl hq
      · simp [hnew.way first hfirst] at hnone

/-! ## Directories of one name -/

/-- The tree with directories of one name, each in the one before. -/
def nested (t : FileTree) (name : String) : Nat → FileTree
  | 0 => t
  | n + 1 => (t.nested name n).put (t.home.along (List.replicate (n + 1) name)) .directory

theorem home_nested (t : FileTree) (name : String) (n : Nat) : (t.nested name n).home = t.home := by
  induction n with
  | zero => rfl
  | succ n ih => exact ih

theorem total_replicate (count : String → Nat) (n : Nat) (name : String) :
    total count (List.replicate n name) = n * count name := by
  induction n with
  | zero => rw [Nat.zero_mul, List.replicate_zero, total, List.foldr_nil]
  | succ n ih =>
      rw [List.replicate_succ, Nat.succ_mul, Nat.add_comm, ← ih]
      rfl

theorem utf8ByteSize_replicate (n : Nat) (c : Char) :
    (String.ofList (List.replicate n c)).utf8ByteSize = n * c.utf8Size := by
  induction n with
  | zero =>
      rw [Nat.zero_mul]
      rfl
  | succ n ih =>
      rw [List.replicate_succ, String.ofList_cons, String.utf8ByteSize_append,
        String.utf8ByteSize_singleton, ih, Nat.succ_mul, Nat.add_comm]

theorem splitSlashes_intercalate {names : List (List Char)} (hne : names ≠ [])
    (h : ∀ name ∈ names, '/' ∉ name) :
    splitSlashes (String.ofList (['/'].intercalate names)) = names.map String.ofList := by
  rw [splitSlashes, String.toList_ofList, List.splitOn_intercalate '/' h hne]

section Name

variable {name : String} (hname : name ≠ "" ∧ name ≠ "." ∧ name ≠ "..")

include hname

theorem Place.along_replicate_succ (here : Place) (n : Nat) :
    here.along (List.replicate (n + 1) name) = (here.along (List.replicate n name)).child name := by
  rw [List.replicate_succ', Place.along_append, Place.along_cons, Place.along_nil,
    Place.follow_of_ne hname.1 hname.2.1 hname.2.2]

theorem Place.along_replicate_succ_ne_root (here : Place) (n : Nat) :
    here.along (List.replicate (n + 1) name) ≠ .root := by
  rw [Place.along_replicate_succ hname]
  exact Place.child_ne_root _ _

theorem Place.reversed_along_replicate (here : Place) (n : Nat) :
    (here.along (List.replicate n name)).reversed = List.replicate n name ++ here.reversed := by
  induction n with
  | zero => rfl
  | succ n ih =>
      rw [Place.along_replicate_succ hname, List.replicate_succ, List.cons_append, ← ih]
      rfl

theorem isWay_nested (hhome : t.at? t.home = some .directory) (n : Nat) :
    (t.nested name n).IsWay t.home (List.replicate n name) := by
  induction n with
  | zero => exact isWay_nil.2 hhome
  | succ n ih =>
      intro first hfirst
      rw [nested, at?_put _ (Place.along_replicate_succ_ne_root hname t.home n)]
      split
      · rfl
      · next hne =>
        rw [List.replicate_succ', List.prefix_concat_iff, ← List.replicate_succ'] at hfirst
        obtain rfl | hfirst := hfirst
        · exact absurd rfl hne
        · exact ih first hfirst

/-- Another place is not changed, unless it is named like the directories. -/
theorem at?_nested {q : Place} (hq : q.reversed.head? ≠ some name) (t : FileTree) (n : Nat) :
    (t.nested name n).at? q = t.at? q := by
  induction n with
  | zero => rfl
  | succ n ih =>
      have hne : q ≠ t.home.along (List.replicate (n + 1) name) := by
        rintro rfl
        rw [Place.along_replicate_succ hname] at hq
        exact hq rfl
      rw [nested, at?_put _ (Place.along_replicate_succ_ne_root hname t.home n), if_neg hne, ih]

end Name

end FileTree

end BraceGrammar
