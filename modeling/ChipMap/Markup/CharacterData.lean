/-!
# Characters and character data

Which characters may stand in a document, which separate the parts of a tag and which make up a name
is a matter of code points, and is given here by ranges.  Text and attribute values are character
data: they may hold references, which stand for one character each.  What is written out has its
line ends made uniform; what comes from a reference stays as it is, which is how a document can hold
a carriage return.

* `isSpace`, `isAllowed`, `isNameStart`, `isNameChar` — classes of characters.
* `referenced?` — the character that a reference stands for.
* `Piece` — one character, written out or referenced.
* `pieces?` — a text as pieces.
* `uniformLines` — the text of a run of character data.
* `attributeValue` — the value of an attribute.

### What is load-bearing

Line ends are made uniform after references are read, so a character has to remember whether it was
written out (`Piece`).  A carriage return that was written out waits for the character behind it,
which may be the line feed that it belongs to (`keepPlain`); with a reference behind it, it has
waited for nothing and stays.
-/

namespace ChipMap.Markup

/-- The characters that separate the parts of a tag.  They are fewer than the blank characters of
texts. -/
def isSpace (c : Char) : Bool :=
  c == ' ' || c == '\t' || c == '\n' || c == '\r'

/-- The characters that may stand in a document: all but the controls that do not separate, and
but the last two code points of the basic plane. -/
def isAllowed (c : Char) : Bool :=
  if c.toNat < 0x20 then isSpace c else c.toNat != 0xFFFE && c.toNat != 0xFFFF

/-- The code points beyond ASCII that begin a name, as closed ranges in ascending order. -/
def nameStartRanges : List (Nat × Nat) :=
  [(0xC0, 0xD6), (0xD8, 0xF6), (0xF8, 0x2FF), (0x370, 0x37D), (0x37F, 0x1FFF), (0x200C, 0x200D),
    (0x2070, 0x218F), (0x2C00, 0x2FEF), (0x3001, 0xD7FF), (0xF900, 0xFDCF), (0xFDF0, 0xFFFD),
    (0x10000, 0xEFFFF)]

/-- The code points beyond ASCII that a name may hold behind its first character, besides those
that begin one. -/
def nameRestRanges : List (Nat × Nat) :=
  [(0xB7, 0xB7), (0x300, 0x36F), (0x203F, 0x2040)]

/-- Whether one of the closed ranges holds the code point of a character. -/
def inRanges (ranges : List (Nat × Nat)) (c : Char) : Bool :=
  ranges.any fun r => r.1 ≤ c.toNat && c.toNat ≤ r.2

/-- The characters that begin a name.  The colon is one of them, also where it parts off a
prefix. -/
def isNameStart (c : Char) : Bool :=
  c.isAlpha || c == ':' || c == '_' || inRanges nameStartRanges c

/-- The characters of a name.  Digits, the hyphen and the dot stand in a name but do not begin
it. -/
def isNameChar (c : Char) : Bool :=
  isNameStart c || c.isDigit || c == '-' || c == '.' || inRanges nameRestRanges c

/-- The value of a digit of a character reference, in decimal or in hexadecimal. -/
def referenceDigit? (radix : Nat) (c : Char) : Option Nat :=
  if c.isDigit then some (c.toNat - '0'.toNat)
  else if radix == 16 && 'a' ≤ c && c ≤ 'f' then some (c.toNat - 'a'.toNat + 10)
  else if radix == 16 && 'A' ≤ c && c ≤ 'F' then some (c.toNat - 'A'.toNat + 10)
  else none

/-- The character of a code point.  A number below 2³² that is no code point of a character stands
for the replacement character. -/
def characterOf? (n : Nat) : Option Char :=
  if 0x100000000 ≤ n then none
  else
    let c := if n.isValidChar then Char.ofNat n else Char.ofNat 0xFFFD
    if isAllowed c then some c else none

/-- The character whose code point the digits denote. -/
def numbered? (radix : Nat) (digits : List Char) : Option Char := do
  let values ← digits.mapM (referenceDigit? radix)
  if values.isEmpty then none else characterOf? (values.foldl (fun n d => n * radix + d) 0)

/-- The character that a reference stands for, given what is written between `&` and `;`.  There are
five names and the two forms with a number; a document cannot define more. -/
def referenced? (body : List Char) : Option Char :=
  match body with
  | '#' :: 'x' :: digits => numbered? 16 digits
  | '#' :: digits => numbered? 10 digits
  | _ =>
    match String.ofList body with
    | "quot" => some '"'
    | "amp" => some '&'
    | "apos" => some '\''
    | "lt" => some '<'
    | "gt" => some '>'
    | _ => none

/-- One character of character data. -/
inductive Piece where
  /-- A character that is written out. -/
  | plain (c : Char)
  /-- A character that a reference stands for. -/
  | reference (c : Char)
deriving DecidableEq, Repr

/-- The pieces of a text that begins behind an ampersand: the reference up to the semicolon, and
then characters that are written out. -/
def piecesBehindAmpersand? (part : List Char) : Option (List Piece) :=
  match part.dropWhile (· != ';') with
  | _ :: rest => do
    let c ← referenced? (part.takeWhile (· != ';'))
    some (.reference c :: rest.map .plain)
  | [] => none

/-- The pieces of a text, if every ampersand begins a reference.  The text is cut at its ampersands,
so each part but the first begins with the body of a reference. -/
def pieces? (cs : List Char) : Option (List Piece) :=
  match cs.splitOn '&' with
  | first :: parts => do
    let behind ← parts.mapM piecesBehindAmpersand?
    some (first.map .plain ++ behind.flatten)
  | [] => some []

/-- The reversed text `kept` with the written character `c` behind it.  A carriage return is a line
end, and one that waits at the end of `kept` becomes a line feed together with a line feed that
follows it.  The last character of the run has nothing to wait for. -/
def keepPlain (kept : List Char) (c : Char) (isLast : Bool) : List Char :=
  match kept with
  | '\r' :: before =>
    if isLast && c == '\r' then '\n' :: '\n' :: before
    else if c == '\n' then '\n' :: before
    else c :: '\n' :: before
  | _ => if isLast && c == '\r' then '\n' :: kept else c :: kept

/-- The text of pieces behind the reversed text `kept`.  A referenced character is kept as it is, as
is the character written directly behind it. -/
def uniformLinesFrom (kept : List Char) (behindReference : Bool) : List Piece → List Char
  | [] => kept.reverse
  | .reference c :: rest => uniformLinesFrom (c :: kept) true rest
  | .plain c :: rest =>
    uniformLinesFrom (if behindReference then c :: kept else keepPlain kept c rest.isEmpty) false rest

/-- The text of a run of character data: every written line end is a line feed. -/
def uniformLines (pieces : List Piece) : List Char :=
  uniformLinesFrom [] false pieces

/-- The value of an attribute: every written line end or tab is a space, and a carriage return with
a line feed behind it is one line end.  Characters that come from references are left alone. -/
def attributeValue : List Piece → List Char
  | [] => []
  | .reference c :: rest => c :: attributeValue rest
  | .plain c :: rest =>
    if c == '\r' && rest.head? == some (.plain '\n') then attributeValue rest
    else (if c == '\r' || c == '\n' || c == '\t' then ' ' else c) :: attributeValue rest

end ChipMap.Markup
