import ChipMap.Text.Scan
import ChipMap.Numeral.Malformed
import ChipMap.Word.Bits

/-!
# Faults of a document

A document that is no description is refused with the first fault that is found.  A fault of an
element says where the element is: by its path from the root, and by the place of its start tag.
The path is for people who know the chip and the place for people who edit the document.

* `Step`, `Location` — where an element is.
* `renderPath` — a path as it is written in messages.
* `DocumentFault` — the faults, with `DocumentFault.message`.

### What is load-bearing

A step tells whether there is one child of the name or several (`Step`).  Children that share a name
are numbered among themselves, so a path leads to one element.  A document that is not well formed
has no elements, and a fault of it no location.
-/

namespace ChipMap.Description

/-- One step of a path: to a child that is there once, or to one of several children.  The name of a
step is that of an element, or of the list that the child belongs to. -/
inductive Step where
  /-- The child of a name. -/
  | only (name : String)
  /-- The child of a number, counted from zero, among the children that share a name. -/
  | nth (name : String) (index : Nat)
deriving DecidableEq, Repr, Inhabited

/-- A step is written as the name, with the number in brackets. -/
def Step.render : Step → String
  | only name => name
  | nth name index => name ++ "[" ++ toString index ++ "]"

/-- Where an element is.  An element that is missing has the path that it would have. -/
structure Location where
  /-- The steps from the root, which is the first of them. -/
  path : List Step
  /-- The place of the start tag of the element, or of its parent if the element is missing. -/
  position : Text.Position
deriving DecidableEq, Repr, Inhabited

/-- The steps of a path with dots between them. -/
def renderPath (path : List Step) : String :=
  String.intercalate "." (path.map Step.render)

/-- A location is written as its path with line and column behind it. -/
def Location.render (l : Location) : String :=
  renderPath l.path ++ " (line " ++ toString l.position.line ++ ", column " ++
    toString l.position.column ++ ")"

/-- Why a document is no description.  All faults but the first two have a location. -/
inductive DocumentFault where
  /-- The text is no well-formed document. -/
  | notWellFormed
  /-- The root element is no device. -/
  | unexpectedRoot (found : String)
  /-- A required element is missing or empty. -/
  | missing (location : Location) (element : String)
  /-- The text of an element is no value of its kind. -/
  | invalid (location : Location) (cause : Malformed)
  /-- The list of indices of an array is not as long as the array. -/
  | indexCount (location : Location) (expected : Word) (found : Nat)
deriving DecidableEq, Repr, Inhabited

/-- The wording of a fault. -/
def DocumentFault.message : DocumentFault → String
  | notWellFormed => "malformed document"
  | unexpectedRoot found => "unexpected root element '" ++ found ++ "', expected 'device'"
  | missing location element =>
    location.render ++ ": missing required element '" ++ element ++ "'"
  | invalid location cause => location.render ++ ": " ++ cause.message
  | indexCount location expected found =>
    location.render ++ ": 'dimIndex' lists " ++ toString found ++ " entries but 'dim' is " ++
      toString expected.toNat

end ChipMap.Description
