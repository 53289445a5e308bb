/-!
# Blank characters

The blank characters are those with the property `White_Space`.  Documents are hand written, so
every scalar of a document is read after its outer blanks are dropped, and free text is read with
each run of blanks as one space.  Both are done on lists of characters, and a text is turned into a
list and back once at the outside: a list has the recursion that proofs about readers follow.

* `isBlank` — the property as a table of ranges.
* `trimStart`, `trimEnd`, `trimChars`, `trim` — a text without its outer blanks.
* `words` — the maximal runs of characters that are not blank.
* `collapse` — the words of a text with one space between neighbours.

### What is load-bearing

The property is a table of ranges here, so whether a character is blank is decided by comparing its
code point.  The recursion of `words` is on the length of the text: a word is taken off at the
front, and what is left of the text behind it is shorter (`length_dropWhile_le`).
-/

namespace ChipMap.Text

/-- The code points with the property `White_Space`, as closed ranges in ascending order.  The first
one holds the tab, both line ends and what lies between them. -/
def blankRanges : List (Nat × Nat) :=
  [(0x9, 0xD), (0x20, 0x20), (0x85, 0x85), (0xA0, 0xA0), (0x1680, 0x1680), (0x2000, 0x200A),
    (0x2028, 0x2029), (0x202F, 0x202F), (0x205F, 0x205F), (0x3000, 0x3000)]

/-- A character is blank when one of the ranges of the property holds its code point. -/
def isBlank (c : Char) : Bool :=
  blankRanges.any fun r => r.1 ≤ c.toNat && c.toNat ≤ r.2

/-- The text after its leading blanks. -/
def trimStart (cs : List Char) : List Char :=
  cs.dropWhile isBlank

/-- The text before its trailing blanks.  The blanks are dropped from the front of the reversed
text. -/
def trimEnd (cs : List Char) : List Char :=
  (cs.reverse.dropWhile isBlank).reverse

/-- The text between its leading and its trailing blanks. -/
def trimChars (cs : List Char) : List Char :=
  trimEnd (trimStart cs)

/-- The text between its leading and its trailing blanks.  A text that is blank throughout leaves
nothing. -/
def trim (text : String) : String :=
  String.ofList (trimChars text.toList)

/-- What is left of a text after its leading run of characters that are not blank. -/
private def afterWord (cs : List Char) : List Char :=
  cs.dropWhile fun c => !isBlank c

/-- What is left of a text is no longer than the text.  The words of a text end for this reason. -/
private theorem length_dropWhile_le (p : Char → Bool) (cs : List Char) :
    (cs.dropWhile p).length ≤ cs.length :=
  (List.dropWhile_sublist p).length_le

/-- The maximal runs of characters that are not blank, in order.  Each is taken off behind the
blanks at the front, so none of them is empty. -/
def words (cs : List Char) : List (List Char) :=
  match _h : trimStart cs with
  | [] => []
  | c :: rest => (c :: rest.takeWhile fun c => !isBlank c) :: words (afterWord rest)
termination_by cs.length
decreasing_by
  have first := length_dropWhile_le isBlank cs
  have second := length_dropWhile_le (fun c => !isBlank c) rest
  rw [show cs.dropWhile isBlank = c :: rest from _h, List.length_cons] at first
  simp only [afterWord]
  omega

/-- The words of a text with one space between neighbours: outer blanks go, and every inner run of
blanks becomes one space. -/
def collapse (text : String) : String :=
  String.intercalate " " ((words text.toList).map String.ofList)

end ChipMap.Text
