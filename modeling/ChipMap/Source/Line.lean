import ChipMap.Text.Blank

/-!
# Lines of source

Source is produced as lines that know how deep they are nested.  What a level of nesting looks like
is decided last, when the lines become a text.

* `Line` — a text at a depth.
* `nested`, `enclosed` — lines one level deeper.
* `renderLines` — the text of lines.
* `docLines` — the lines of a comment.

### What is load-bearing

Nothing that produces lines knows the unit of indentation, so two texts that differ in the unit come
from the same lines.  A blank line gets no indentation at all, whatever its depth is.
-/

namespace ChipMap.Source

/-- A line of source.  The type does not keep a line feed out of its text. -/
structure Line where
  /-- How many levels of nesting the line is in. -/
  depth : Nat
  /-- The line without its indentation; a blank line is empty. -/
  text : String
deriving DecidableEq, Repr, Inhabited

/-- A line that is in no level of nesting. -/
def line (text : String) : Line := ⟨0, text⟩

def blank : Line := line ""

/-- Lines one level deeper. -/
def nested (lines : List Line) : List Line :=
  lines.map fun l => { l with depth := l.depth + 1 }

/-- Lines one level deeper, between a line that opens the level and one that closes it.  Every
bracket that spans lines is written by it. -/
def enclosed (opening closing : String) (inner : List Line) : List Line :=
  line opening :: nested inner ++ [line closing]

/-- The text of a line with a unit of indentation for each level, line feed included.  A blank line
has no indentation. -/
def Line.render (indent : String) (l : Line) : String :=
  if l.text.isEmpty then "\n"
  else String.join (List.replicate l.depth indent) ++ l.text ++ "\n"

/-- The text of lines with a unit of indentation. -/
def renderLines (indent : String) (lines : List Line) : String :=
  String.join (lines.map (Line.render indent))

/-- The lines of a text.  A line feed ends a line, so nothing follows the last one.  The empty text
has no lines. -/
def splitLines (cs : List Char) : List (List Char) :=
  let parts := cs.splitOn '\n'
  if parts.getLast? == some [] then parts.dropLast else parts

/-- The lines of a comment without their outer blanks; an absent comment has no lines.  A blank line
inside a comment stays as an empty one. -/
def docLines : Option String → List String
  | none => []
  | some text => (splitLines text.toList).map fun l => String.ofList (Text.trimChars l)

/-- A comment before an item, with one marker a line. -/
def outerDoc (docs : List String) : List Line := docs.map fun d => line ("/// " ++ d)

/-- A comment at the start of a module. -/
def innerDoc (docs : List String) : List Line := docs.map fun d => line ("//! " ++ d)

@[simp] theorem length_nested (lines : List Line) : (nested lines).length = lines.length := by
  simp [nested]

@[simp] theorem nested_append (a b : List Line) : nested (a ++ b) = nested a ++ nested b := by
  simp [nested]

end ChipMap.Source
