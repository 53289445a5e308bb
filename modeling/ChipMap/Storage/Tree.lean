import ChipMap.Storage.Path

/-!
# Trees of files

A tree holds files and directories at locations.  The root is always a directory.  Around it there
are directories of which nothing else is known, and a path that goes back beyond the root leads into
them; a path that is absolute leads nowhere.

A file is put in place as a whole: it is there with all its contents, or the tree stays as it is.
For several files the tree is prepared first, since all their directories have to be there before
the first file is put.

## Main definitions

* `Entry`, `FileTree` — the entries of a tree, with `FileTree.get?` as its view.
* `FileTree.below` — the entries that are below the root.
* `FileTree.locate?` — where a path leads.
* `FileTree.read?` — the contents of the file at a path.
* `FileTree.put?` — the tree with a file at a path.
* `FileTree.makeDirectories` — the tree with all directories of a path.
* `FileTree.putAll`, `FileTree.fill` — the tree with several files, and with files in a directory.

## Main statements

* `FileTree.get?_insert` — what is at each location after an insertion.
-/

namespace ChipMap.Storage

/-- What is at a location: a file with its contents, or a directory. -/
inductive Entry where
  | file (contents : String)
  | directory
deriving DecidableEq, Repr, Inhabited

/-- A location is the list of the names that lead to it from the root.  A location outside the root
begins with steps of two dots. -/
abbrev Place := List String

/-- Whether a location is the root, or that of a directory around it. -/
def surrounds (place : Place) : Bool := place.all (· == "..")

/-- The location of the directory around a location. -/
def outward (place : Place) : Place :=
  if surrounds place then place ++ [".."] else place.dropLast

/-- A tree of files.  Of two entries with one location the first counts. -/
structure FileTree where
  /-- The entries, without the root and the directories around it. -/
  entries : List (Place × Entry)
deriving DecidableEq, Repr, Inhabited

namespace FileTree

def empty : FileTree := ⟨[]⟩

/-- What is at a location; the root and what is around it are directories. -/
def get? (t : FileTree) (place : Place) : Option Entry :=
  if surrounds place then some .directory else t.entries.lookup place

def below (t : FileTree) : List (Place × Entry) :=
  t.entries.filter fun entry => entry.1.head? != some ".."

/-- The tree with an entry at a location, in place of what was there. -/
def insert (t : FileTree) (place : Place) (e : Entry) : FileTree :=
  ⟨(place, e) :: t.entries.filter fun entry => entry.1 != place⟩

/-- Whether there is a directory at a location. -/
def isDirectory (t : FileTree) (place : Place) : Bool :=
  t.get? place == some .directory

/-- Where some steps lead from a location.  Every location that is left by a step has to be a
directory, and every step has to be one that a file system takes. -/
def walk (t : FileTree) (place : Place) : List String → Option Place
  | [] => some place
  | step :: rest =>
    if !t.isDirectory place then none
    else if step = ".." then t.walk (outward place) rest
    else if isName step then t.walk (place ++ [step]) rest
    else none

/-- Where a path leads. -/
def locate? (t : FileTree) (p : Path) : Option Place :=
  if p.isAbsolute || !p.isPassable then none else t.walk [] p.steps

/-- The contents of the file at a path. -/
def read? (t : FileTree) (p : Path) : Option String := do
  let place ← t.locate? p
  match p.endsInDirectory, t.get? place with
  | false, some (.file contents) => some contents
  | _, _ => none

/-- Whether the directory is there that the entry at a path belongs to.  The last step of the path
does not matter. -/
def isPrepared (t : FileTree) (p : Path) : Bool :=
  (t.locate? p.parent).any t.isDirectory

/-- The tree with a file at a path, in place of a file that was there.  The directory of the file
has to be there, and no directory may be in the way. -/
def put? (t : FileTree) (p : Path) (contents : String) : Option FileTree := do
  let place ← t.locate? p
  if p.endsInDirectory || t.isDirectory place then none
  else some (t.insert place (.file contents))

/-- The tree with the directories along some steps from a location, and whether all of them are
there. -/
def grow (t : FileTree) (place : Place) : List String → FileTree × Bool
  | [] => (t, true)
  | step :: rest =>
    if step = ".." then t.grow (outward place) rest
    else if isName step then
      match t.get? (place ++ [step]) with
      | some .directory => t.grow (place ++ [step]) rest
      | some (.file _) => (t, false)
      | none => (t.insert (place ++ [step]) .directory).grow (place ++ [step]) rest
    else (t, false)

/-- The tree with a directory at a path, when the directory that it belongs to is there.  A
directory that is there already stays; a path that ends in a dot makes none. -/
def makeDirectory? (t : FileTree) (p : Path) : Option FileTree := do
  let place ← t.locate? p
  match t.get? place, p.endsInDot with
  | some .directory, _ => some t
  | none, false => some (t.insert place .directory)
  | _, _ => none

/-- The tree with all directories of a path, and whether they are there.  A file in the way stops
the work, and what was made before it stays.  Nothing is made for a path that no file system
takes. -/
def makeDirectories (t : FileTree) (p : Path) : FileTree × Bool :=
  if p.isAbsolute || !p.isPassable then (t, false)
  else
    match t.grow [] p.steps.dropLast with
    | (grown, false) => (grown, false)
    | (grown, true) =>
      match grown.makeDirectory? p with
      | some made => (made, true)
      | none => (grown, false)

/-- The tree with files at paths, put one after another.  The first path at which no file can be put
ends the work and is the second result; the files before it stay. -/
def putAll (t : FileTree) : List (Path × String) → FileTree × Option Path
  | [] => (t, none)
  | (p, contents) :: rest =>
    match t.put? p contents with
    | some filled => filled.putAll rest
    | none => (t, some p)

/-- The tree with files in the directory at a path, and the path that ended the work.  The directory
is made, and no file is put before the directories of all files are there. -/
def fill (t : FileTree) (directory : Path) (targets : List (Path × String)) :
    FileTree × Option Path :=
  match t.makeDirectories directory with
  | (made, false) => (made, some directory)
  | (made, true) =>
    match targets.find? fun target => !made.isPrepared target.1 with
    | some target => (made, some target.1)
    | none => made.putAll targets

/-! ### Entries -/

theorem lookup_filter_ne {place other : Place} (h : other ≠ place) (es : List (Place × Entry)) :
    (es.filter fun entry => entry.1 != place).lookup other = es.lookup other := by
  induction es with
  | nil => rfl
  | cons entry rest ih =>
    obtain ⟨location, e⟩ := entry
    by_cases hp : location = place
    · subst hp
      simp [List.lookup_cons, beq_eq_false_iff_ne.2 h, ih]
    · simp [List.filter, List.lookup_cons, bne_iff_ne.2 hp, ih]

theorem get?_insert (t : FileTree) {place : Place} (h : surrounds place = false) (e : Entry)
    (other : Place) :
    (t.insert place e).get? other = if other = place then some e else t.get? other := by
  by_cases ho : other = place
  · subst ho
    simp [insert, get?, h]
  · by_cases hs : surrounds other = true
    · simp [get?, hs, ho]
    · simp [insert, get?, hs, ho, List.lookup_cons, beq_eq_false_iff_ne.2 ho, lookup_filter_ne ho]

theorem get?_of_surrounds (t : FileTree) {place : Place} (h : surrounds place = true) :
    t.get? place = some .directory := by
  simp [get?, h]

end FileTree

end ChipMap.Storage
