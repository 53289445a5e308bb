import ChipMap.Source.Export
import ChipMap.Storage.Tree

/-!
# Delivering files

Produced files go to one of four destinations.  A single file and the standard output take exactly
one file; a directory and a collection take any number of them.

What a delivery does is fixed as an effect before anything is done, so a number of files that the
destination does not take is refused with nothing changed.  A failure while the effect is performed
is another matter: files that were put before it stay.

* `Destination` — where files go.
* `DeliveryFault` — why files do not get there, with `DeliveryFault.message`.
* `Outlets` — what a delivery changes.
* `Effect`, `Destination.effect` — what a delivery does, fixed before anything is done.
* `Destination.deliver` — the outlets after a delivery.

### What is load-bearing

A directory and a collection keep the names of the files.  A single file is put at the path that was
given, and its own name has no effect there.
-/

namespace ChipMap.Storage

open Source (SourceFile)

/-- Where files go.  What becomes of their names differs: only a directory and a collection keep
them. -/
inductive Destination where
  /-- The text of one file is printed. -/
  | standardOutput
  /-- Every file is put into a directory, under its own name. -/
  | directory (path : Path)
  /-- One file is put at a path, whatever its own name is. -/
  | file (path : Path)
  /-- The files are kept with those of earlier deliveries. -/
  | collection
deriving DecidableEq, Repr, Inhabited

/-- The destination that a path stands for: the dash for the standard output, a path with the
extension of source files for a file, and any other path for a directory.  No tree is asked whether
a directory is there. -/
def Destination.ofPath (p : Path) : Destination :=
  if p.isDash then .standardOutput
  else if p.extension? = some "rs" then .file p
  else .directory p

/-- Why files do not get to their destination. -/
inductive DeliveryFault where
  /-- Nothing can be put at a path. -/
  | blocked (path : Path)
  /-- The destination takes exactly one file. -/
  | notSingle (destination : String) (count : Nat)
deriving DecidableEq, Repr, Inhabited

/-- The wording of a fault. -/
def DeliveryFault.message : DeliveryFault → String
  | blocked path => path.text ++ ": cannot be written"
  | notSingle destination count =>
    destination ++ " can only receive a single output unit, got " ++ toString count

/-- What a delivery changes.  A delivery to one outlet leaves the other two as they are. -/
structure Outlets where
  /-- The files that are stored. -/
  tree : FileTree
  /-- The text that is printed. -/
  printed : String
  /-- The files that are kept. -/
  collected : List SourceFile
deriving DecidableEq, Repr, Inhabited

/-- The outcome of putting files: the path that ended the work is at fault.  Without such a path all
of them were put. -/
def outcomeOf : Option Path → Except DeliveryFault Unit
  | none => .ok ()
  | some path => .error (.blocked path)

/-- What a delivery does.  The paths in it are those at which the files are put, directories
included. -/
inductive Effect where
  | print (text : String)
  /-- Puts files at paths. -/
  | put (targets : List (Path × String))
  /-- Makes a directory, and puts files at paths in it. -/
  | fill (directory : Path) (targets : List (Path × String))
  | collect (files : List SourceFile)
deriving DecidableEq, Repr, Inhabited

/-- The effect of a delivery: the destination decides what becomes of the names of the files, and
whether it takes them at all. -/
def Destination.effect : Destination → List SourceFile → Except DeliveryFault Effect
  | standardOutput, [only] => .ok (.print only.contents)
  | standardOutput, files => .error (.notSingle "stdout" files.length)
  | file path, [only] => .ok (.put [(path, only.contents)])
  | file path, files => .error (.notSingle path.text files.length)
  | directory path, files =>
    .ok (.fill path (files.map fun f => (path.join f.name, f.contents)))
  | collection, files => .ok (.collect files)

/-- The outlets after an effect, and whether all of it was done.  An effect that was done in part
has changed the tree by that part. -/
def Effect.perform (o : Outlets) : Effect → Outlets × Except DeliveryFault Unit
  | print text => ({ o with printed := o.printed ++ text }, .ok ())
  | put targets =>
    let (tree, blocked) := o.tree.putAll targets
    ({ o with tree }, outcomeOf blocked)
  | fill directory targets =>
    let (tree, blocked) := o.tree.fill directory targets
    ({ o with tree }, outcomeOf blocked)
  | collect files => ({ o with collected := o.collected ++ files }, .ok ())

/-- The outlets after a delivery, and whether all files got to their destination.  Files that the
destination refuses change nothing. -/
def Destination.deliver (d : Destination) (files : List SourceFile) (o : Outlets) :
    Outlets × Except DeliveryFault Unit :=
  match d.effect files with
  | .error fault => (o, .error fault)
  | .ok effect => effect.perform o

end ChipMap.Storage
