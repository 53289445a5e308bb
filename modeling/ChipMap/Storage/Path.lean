/-!
# Paths of files

A path leads through the directories of a tree.  Its steps stand between slashes: a step of one dot
stays in a directory, a step of two dots goes back to the one around it, and any other step is the
name of an entry.  Paths and names are limited in length, and neither may hold the zero character.

* `Path` — a path as it is written.
* `Path.steps` — the steps that lead somewhere else.
* `isName`, `Path.isPassable` — what can be the name of an entry, and what can be a path.
* `Path.parent` — the path of the directory that an entry belongs to.
* `Path.join` — the path of an entry of a directory.
* `Path.extension?` — the end of the name that a path leads to.

### What is load-bearing

A path is kept as it is written, since its last piece decides what it may lead to: `a` and `a/` have
the same steps, but only the first one can be the path of a file.
-/

namespace ChipMap.Storage

/-- A path of a file or a directory. -/
structure Path where
  /-- The path as it is written. -/
  text : String
deriving DecidableEq, Repr, Inhabited

/-- Whether a text holds no zero character, which ends a text for a file system. -/
def isUnbroken (text : String) : Bool := text.toList.all (· != '\x00')

/-- The greatest number of bytes of a name. -/
def nameLimit : Nat := 255

/-- The greatest number of bytes of a path. -/
def pathLimit : Nat := 4095

/-- Whether a step can be the name of an entry. -/
def isName (step : String) : Bool :=
  isUnbroken step && decide (step.utf8ByteSize ≤ nameLimit)

namespace Path

def pieces (p : Path) : List String :=
  (p.text.toList.splitOn '/').map String.ofList

/-- The steps of a path, without those that stay where they are.  Steps of two dots are kept, for
what they cancel depends on the tree. -/
def steps (p : Path) : List String :=
  p.pieces.filter fun piece => piece != "" && piece != "."

/-- Whether a path begins at the root of all trees and not at the directory where it is used. -/
def isAbsolute (p : Path) : Bool := p.text.toList.head? == some '/'

/-- Whether a file system takes a path at all. -/
def isPassable (p : Path) : Bool :=
  isUnbroken p.text && decide (p.text.utf8ByteSize ≤ pathLimit)

/-- The path of the directory that the entry at a path belongs to.  The empty path is that of the
directory where it is used.  It is computed from the steps, and no tree is asked. -/
def parent (p : Path) : Path :=
  ⟨(if p.isAbsolute then "/" else "") ++ String.intercalate "/" p.steps.dropLast⟩

/-- Whether the last step of a path is one of one dot, slashes behind it aside.  Such a path leads
to a directory that is there already. -/
def endsInDot (p : Path) : Bool :=
  (p.pieces.filter (· != "")).getLast? == some "."

/-- Whether a path can lead to a directory only: its last piece is no name. -/
def endsInDirectory (p : Path) : Bool :=
  match p.pieces.getLast? with
  | some piece => piece == "" || piece == "." || piece == ".."
  | none => true

/-- Whether a path is the dash that stands for the standard streams. -/
def isDash (p : Path) : Bool :=
  p.pieces.head? == some "-" && p.steps == ["-"]

/-- The path of the entry `name` of the directory at a path.  A name that is an absolute path is
left as it is, and so is any name in the directory where the program runs. -/
def join (p : Path) (name : String) : Path :=
  if (Path.mk name).isAbsolute || p.text.isEmpty then ⟨name⟩
  else if p.text.toList.getLast? == some '/' then ⟨p.text ++ name⟩
  else ⟨p.text ++ "/" ++ name⟩

/-- What stands behind the last dot of the name that a path leads to.  A dot at the front of the
name does not count, and a step of two dots is no name. -/
def extension? (p : Path) : Option String := do
  let name ← p.steps.getLast?
  let reversed := name.toList.reverse
  match name == "..", reversed.dropWhile (· != '.') with
  | false, _ :: _ :: _ => some (String.ofList (reversed.takeWhile (· != '.')).reverse)
  | _, _ => none

end Path

end ChipMap.Storage
