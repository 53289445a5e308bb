/-!
# Reading and searching a text

A reader takes some characters from the front of a text and leaves the rest.  It fails without a
reason: what a text is that no reader takes is the concern of the caller, which reports a malformed
document as a whole.  With what is left a reader keeps the place of its first character, since the
elements of a document are reported by line and column.

A name of a document may hold a mark that stands for the number of an element.  The mark is searched
from the left, and what is put in its place is not searched again.

* `Position` — a line and a column of the text.
* `Cursor` — what is left of a text, with the place of its first character.
* `Scan` — readers, with `Scan.sees`, `Scan.expect`, `Scan.accept` and `Scan.takeWhile` as the
  elementary ones.
* `occurs`, `contains` — whether a text stands somewhere in another.
* `replaceAll` — a text with another in place of each occurrence.

### What is load-bearing

Every reader here moves through `Scan.pass` and through nothing else, so the place of a cursor is
always the place behind the characters that were read.  Characters are counted, and not bytes: a
column is that of the character.
-/

namespace ChipMap.Text

/-- A place in a text, counted from one.  A line ends at a line feed, and a column counts
characters.  A carriage return is a character of its line like any other. -/
structure Position where
  /-- The number of the line. -/
  line : Nat
  /-- The number of the character in its line. -/
  column : Nat
deriving DecidableEq, Repr, Inhabited

namespace Position

def origin : Position := ⟨1, 1⟩

/-- The place behind the character `c` at this place. -/
def after (p : Position) (c : Char) : Position :=
  if c = '\n' then ⟨p.line + 1, 1⟩ else ⟨p.line, p.column + 1⟩

end Position

/-- What is left of a text, and the place of its first character. -/
structure Cursor where
  /-- The characters that are left. -/
  rest : List Char
  /-- The place of the first of them. -/
  position : Position
deriving Repr, Inhabited

/-- The start of a text, with nothing read yet. -/
def Cursor.ofText (text : String) : Cursor := ⟨text.toList, .origin⟩

/-- A reader of the front of a text.  A reader that fails has read nothing: the state is lost with
the result. -/
abbrev Scan := StateT Cursor Option

namespace Scan

def rest : Scan (List Char) := return (← get).rest

/-- The place of the first character that is left. -/
def here : Scan Position := return (← get).position

def sees (text : String) : Scan Bool := return text.toList.isPrefixOf (← rest)

/-- Moves behind characters that were seen at the front.  They are given again, because the place
behind them depends on the line feeds among them. -/
def pass (cs : List Char) : Scan Unit :=
  modify fun cursor =>
    ⟨cursor.rest.drop cs.length, cs.foldl Position.after cursor.position⟩

/-- Reads a text that has to stand at the front. -/
def expect (text : String) : Scan Unit := do
  if ← sees text then pass text.toList else failure

/-- Reads a text that may stand at the front, and tells whether it did.  Nothing is read if it did
not. -/
def accept (text : String) : Scan Bool := do
  if ← sees text then
    pass text.toList
    return true
  else return false

/-- Reads the longest run of characters of a class.  The run may be empty, so this reader does not
fail. -/
def takeWhile (p : Char → Bool) : Scan (List Char) := do
  let run := (← rest).takeWhile p
  pass run
  return run

/-- Reads the mark of byte order that may stand at the start of a text.  The mark counts as a
character of the first line. -/
def byteOrderMark : Scan Unit := do
  let _ ← accept "\uFEFF"

end Scan

/-- Whether `part` stands somewhere in a text.  The empty text stands in every text. -/
def occurs (part : List Char) : List Char → Bool
  | [] => part.isEmpty
  | c :: rest => part.isPrefixOf (c :: rest) || occurs part rest

/-- A text with `new` in place of each occurrence of `old`, searched from the left.  The first
`skip` characters belong to an occurrence that was replaced already, so occurrences that overlap are
replaced once. -/
def replaceFrom (old new : List Char) : Nat → List Char → List Char
  | _, [] => []
  | skip + 1, _ :: rest => replaceFrom old new skip rest
  | 0, c :: rest =>
    if old.isPrefixOf (c :: rest) then new ++ replaceFrom old new (old.length - 1) rest
    else c :: replaceFrom old new 0 rest

/-- Whether `part` stands somewhere in `text`. -/
def contains (text part : String) : Bool :=
  occurs part.toList text.toList

/-- `text` with `new` in place of each occurrence of `old`, which may not be empty. -/
def replaceAll (text old new : String) : String :=
  String.ofList (replaceFrom old.toList new.toList 0 text.toList)

end ChipMap.Text
