import BraceGrammar.Encoding
import BraceGrammar.OrderedMap

/-!
# File trees

Files and directories below a root, which is itself a directory and has no entry, and the directory
that paths start from unless they begin with a slash.  The tree maps places to what is there.  A
path is walked one name at a time, where `.` stays in a directory and `..` goes back.  There may be
directories in which nothing can be made.

Three operations change a tree, and each says why when it cannot: `makeDirectory`,
`makeDirectories` for a whole path, and `rename`, which puts a file in the place of another.
-/

namespace BraceGrammar

namespace FileTree

/-- Where a file or directory is: the names on the way to it from the root, in reverse, and how many
they are. -/
structure Place where
  reversed : List String := []
  depth : Nat := reversed.length
  depth_eq : depth = reversed.length := by rfl
deriving Inhabited

namespace Place

@[ext] theorem ext {p q : Place} (h : p.reversed = q.reversed) : p = q := by
  obtain ⟨xs, n, hn⟩ := p
  obtain ⟨ys, m, hm⟩ := q
  dsimp only at h
  subst hn hm h
  rfl

/-- Places of different depths are told apart without a look at their names. -/
instance : DecidableEq Place := fun p q =>
  if h : p.depth = q.depth then decidable_of_iff (p.reversed = q.reversed) Place.ext_iff.symm
  else isFalse fun hpq => h (hpq ▸ rfl)

def root : Place := {}

def child (p : Place) (name : String) : Place where
  reversed := name :: p.reversed
  depth := p.depth + 1
  depth_eq := by rw [p.depth_eq, List.length_cons]

/-- The directory that a place is in; the root is in itself. -/
def parent (p : Place) : Place where
  reversed := p.reversed.tail
  depth := p.depth - 1
  depth_eq := by rw [p.depth_eq, List.length_tail]

/-- The names on the way from the root. -/
def names (p : Place) : List String := p.reversed.reverse

/-- The place that names lead to from the root. -/
def ofNames (names : List String) : Place := names.foldl child root

/-- The names on the way from a place to another below it. -/
def namesFrom? (home p : Place) : Option (List String) :=
  if home.reversed.isSuffixOf p.reversed then some (p.names.drop home.depth) else none

end Place

inductive Entry
  | file (content : Bytes)
  | directory
deriving DecidableEq, Inhabited

inductive Fault
  | notFound
  | alreadyExists
  | notDirectory
  | isDirectory
  /-- The path ends with a name for a directory that is in use. -/
  | busy
  | nameTooLong
  /-- More directories are missing than can be made at once. -/
  | tooDeep
  /-- No path holds a character zero. -/
  | zeroByte
deriving DecidableEq

def Fault.message : Fault → String
  | .notFound => "no such file or directory"
  | .alreadyExists => "file exists"
  | .notDirectory => "not a directory"
  | .isDirectory => "is a directory"
  | .busy => "device or resource busy"
  | .nameTooLong => "file name too long"
  | .tooDeep => "maximum recursion depth exceeded"
  | .zeroByte => "embedded null byte"

end FileTree

/-- Files and directories with their places, and the place where paths start. -/
structure FileTree where
  entries : OrderedMap FileTree.Place FileTree.Entry := ∅
  home : FileTree.Place := .root
  /-- What is wrong with every new entry of a directory, where nothing can be made in it. -/
  refusal? : FileTree.Place → Option FileTree.Fault := fun _ => none
  /-- How many missing directories above one can be made with it.  Each of them is made within the
  making of the one below it, so that this depends on how deep the caller is: 994 when a program is
  run on its own, and fewer when it is called from another. -/
  mostAbove : Nat := 984
deriving Inhabited

namespace FileTree

variable (t : FileTree)

/-- What is at a place; the root is a directory. -/
def at? (place : Place) : Option Entry :=
  if place = .root then some .directory else t.entries.find? place

/-- The tree with an entry at a place, in place of what may have been there. -/
def put (place : Place) (e : Entry) : FileTree := { t with entries := t.entries.insert place e }

/-- The tree without the entry at a place. -/
def remove (place : Place) : FileTree := { t with entries := t.entries.erase place }

theorem at?_put {place : Place} (h : place ≠ .root) (e : Entry) (q : Place) :
    (t.put place e).at? q = if q = place then some e else t.at? q := by
  unfold at? put
  dsimp only
  rw [OrderedMap.find?_insert]
  by_cases hq : q = .root
  · subst hq
    simp [h.symm]
  · simp [hq]

/-! ## Paths -/

/-- A path: where it starts and the names along it, of which one is empty for each slash too
many. -/
structure Path where
  start : Place
  names : List String

/-- The names of a text with slashes between them. -/
def splitSlashes (text : String) : List String := (text.toList.splitOn '/').map String.ofList

/-- The path that a text is. -/
def path (text : String) : Path :=
  ⟨if text.toList.head? = some '/' then .root else t.home, splitSlashes text⟩

def maxNameLength : Nat := 255

def maxPathLength : Nat := 4095

/-- The sum of what the names of a list count. -/
def total (count : String → Nat) (names : List String) : Nat :=
  names.foldr (fun name n => count name + n) 0

/-- The length of a path in bytes, with the slashes. -/
def Path.length (p : Path) : Nat :=
  total String.utf8ByteSize p.names + (p.names.length - 1)

/-- Goes along names from a place, through directories only.  The place reached need not be
there. -/
def walk (t : FileTree) : Place → List String → Except Fault Place
  | here, [] => .ok here
  | here, name :: names =>
    match t.at? here with
    | none => .error .notFound
    | some (.file _) => .error .notDirectory
    | some .directory =>
      if name = "" ∨ name = "." then t.walk here names
      else if name = ".." then t.walk here.parent names
      else if maxNameLength < name.utf8ByteSize then .error .nameTooLong
      else t.walk (here.child name) names

/-- Refuses paths that cannot be walked at all. -/
def Path.check (p : Path) : Except Fault Unit :=
  if p.names.any fun name => name.toList.contains '\x00' then .error .zeroByte
  else if p.names = [""] then .error .notFound
  else if maxPathLength < p.length then .error .nameTooLong
  else .ok ()

/-- What a path leads to. -/
def look (p : Path) : Except Fault Entry := do
  p.check
  match t.at? (← t.walk p.start p.names) with
  | none => .error .notFound
  | some e => .ok e

def content? (p : Path) : Option Bytes :=
  match t.look p with
  | .ok (.file content) => some content
  | _ => none

def isDirectory (p : Path) : Bool := t.look p matches .ok .directory

def isThere (p : Path) : Bool := t.look p matches .ok _

/-- The place for a new entry: the last name of the path, in the directory that the others lead to.
Where the last name only stands for a directory on the way, the fault given is the answer. -/
def newPlace (p : Path) (refusal : Fault) : Except Fault Place := do
  p.check
  match p.names.reverse.dropWhile (· = "") with
  | [] => .error refusal
  | last :: before =>
    let parent ← t.walk p.start before.reverse
    match t.at? parent with
    | none => .error .notFound
    | some (.file _) => .error .notDirectory
    | some .directory =>
      if last = "." ∨ last = ".." then .error refusal
      else if maxNameLength < last.utf8ByteSize then .error .nameTooLong
      else .ok (parent.child last)

/-! ## Changes -/

/-- Adds one directory, whose parent has to be there. -/
def makeDirectory (p : Path) : Except Fault FileTree := do
  let place ← t.newPlace p .alreadyExists
  if (t.at? place).isSome then .error .alreadyExists
  else
    match t.refusal? place.parent with
    | some fault => .error fault
    | none => .ok (t.put place .directory)

/-- Adds one directory unless it is there.  The tree is as it was when there is a fault. -/
def ensureDirectory (p : Path) : FileTree × Option Fault :=
  match t.makeDirectory p with
  | .ok t => (t, none)
  | .error .zeroByte => (t, some .zeroByte)
  | .error e => (t, if t.isDirectory p then none else some e)

/-- Makes all directories along names, which are given in reverse order.  Those that could be made
stay when a later one cannot, which is why there is a tree in any case. -/
def ensureAll (t : FileTree) (start : Place) : List String → FileTree × Option Fault
  | [] => (t, none)
  | last :: before =>
    let above := before.dropWhile (· = "")
    let p : Path := ⟨start, (last :: before).reverse⟩
    if last = "" then t.ensureAll start before
    else if above = [] ∨ t.isThere ⟨start, above.reverse⟩ then t.ensureDirectory p
    else
      match t.ensureAll start before with
      | (t, none) | (t, some .alreadyExists) =>
        if last = "." then (t, none) else t.ensureDirectory p
      | (t, some e) => (t, some e)

/-- How many directories are to be made along names, which are given in reverse order: the last one,
and those above it up to one that is there. -/
def missing (t : FileTree) (start : Place) : List String → Nat
  | [] => 0
  | last :: before =>
    let above := before.dropWhile (· = "")
    if last = "" then t.missing start before
    else if above = [] ∨ t.isThere ⟨start, above.reverse⟩ then 1
    else t.missing start before + 1

/-- Makes all directories of a path. -/
def makeDirectories (p : Path) : FileTree × Option Fault :=
  let names := p.names.reverse
  if t.mostAbove + 1 < t.missing p.start names then (t, some .tooDeep)
  else t.ensureAll p.start names

/-- Gives the file at a place a new path.  A file that was there is gone; a directory is not
replaced, and a path that ends with a slash is one for a directory. -/
def rename (source : Place) (p : Path) : Except Fault FileTree := do
  let target ← t.newPlace p .busy
  if p.names.getLast? = some "" then .error .notDirectory
  else
    match t.at? target, t.at? source with
    | some .directory, _ => .error .isDirectory
    | _, some e => .ok ((t.remove source).put target e)
    | _, none => .error .notFound

/-- The path of the directory that a path ends in, without names at its end that are empty; nothing
when the path is a single name. -/
def Path.parent? (p : Path) : Option Path :=
  match p.names.reverse with
  | [] | [_] => none
  | _ :: before =>
    match before.dropWhile (· = "") with
    | [] => some ⟨p.start, ["", ""]⟩
    | names => some ⟨p.start, names.reverse⟩

/-- Whether a directory has room for a file with a name of so many bytes: the path to it from the
root must not be too long. -/
def Place.hasRoom (directory : Place) (length : Nat) : Bool :=
  total (fun name => name.utf8ByteSize + 1) directory.reversed + 1 + length ≤ maxPathLength

/-- A name that nothing in the tree has, longer than all of them together. -/
def unusedName : String :=
  let length := total String.length (t.entries.keys.flatMap (·.reversed))
  ".sentences_" ++ String.ofList (List.replicate length '_') ++ ".tmp"

/-! ## Trees and lists -/

/-- The tree with one entry more, which names lead to from a place, and all the directories on the
way.  Directories that are there stay. -/
def graft (t : FileTree) (e : Entry) (here : Place) : List String → FileTree
  | [] => t
  | name :: names =>
    if name = ".." then t.graft e here.parent names
    else
      let place := here.child name
      let new := if names = [] then e else .directory
      (if new = .directory ∧ (t.at? place).isSome then t else t.put place new).graft e place names

/-- The tree of entries with their paths, which start from a place. -/
def ofPaths (home : Place) (entries : List (String × Entry)) : FileTree :=
  entries.foldl
    (fun t (path, e) =>
      t.graft e home ((splitSlashes path).filter fun name => name ≠ "" ∧ name ≠ "."))
    (FileTree.graft { home } .directory .root home.names)

/-- All entries below the place where paths start, with their paths, in the order of the paths. -/
def listing : List (String × Entry) :=
  let below := t.entries.entries.filterMap fun (place, e) =>
    match t.home.namesFrom? place with
    | none | some [] => none
    | some names => some ("/".intercalate names, e)
  below.mergeSort fun a b => a.1 ≤ b.1

end FileTree

end BraceGrammar
