import ChipMap.Numeral.Scaled

/-!
# Patterns, ranges and indices

Three kinds of values have a written form of their own.  The value of an enumerated case is an
integer or a binary pattern whose open digits match either bit.  A range of bits may be written
between brackets, with a colon between its bounds.  The indices of an array are a range of numbers,
a range of letters, or a list with commas.

* `Pattern` — a value together with the mask of the bits that it settles.
* `readPattern` — the pattern of an enumerated case.
* `readBitRange` — the bounds of a range between brackets.
* `readIndices` — the indices of an array.

### What is load-bearing

A binary pattern is tried before an integer, and its mark shadows that of an integer in radix two:
`0b101` is a pattern with all of its bits settled.  The mark `#` belongs to patterns alone, although
an integer outside of a case may begin with it.

In a pattern an underscore counts as a character.  It has no bit of its own, but it is one of the 64
characters that a pattern may have, and it may stand before all digits.
-/

namespace ChipMap

/-- The value of an enumerated case.  A bit that is clear in `mask` is open: it takes no part when
a value is compared with the pattern. -/
structure Pattern where
  /-- The bits of the value; open bits are zero. -/
  value : Word
  /-- The bits that take part in a comparison. -/
  mask : Word
deriving DecidableEq, Repr, Inhabited

namespace Pattern

/-- The pattern that only `value` matches: every bit takes part. -/
def exactly (value : Word) : Pattern := ⟨value, BitVec.allOnes 64⟩

/-- A word matches a pattern when it has the pattern's value in every bit that takes part. -/
def Matches (p : Pattern) (n : Word) : Prop := n &&& p.mask = p.value

instance (p : Pattern) (n : Word) : Decidable (p.Matches n) :=
  inferInstanceAs (Decidable (_ = _))

/-- The pattern with one more binary digit written behind it; any other character than a `0` or a
`1` leaves the new bit open. -/
def push (p : Pattern) (c : Char) : Pattern :=
  let value := p.value <<< 1
  let mask := (p.mask <<< 1) ||| 1
  if c == '1' then ⟨value ||| 1, mask⟩
  else if c == '0' then ⟨value, mask⟩
  else ⟨value, mask &&& ~~~1⟩

/-- The pattern that a run of binary digits denotes.  All bits above the written ones are zero and
take part. -/
def ofDigits (run : List Char) : Pattern :=
  (run.filter (· != '_')).foldl push (exactly 0)

end Pattern

namespace Numeral

/-- The text behind the mark of a binary pattern. -/
def patternMark? (cs : List Char) : Option (List Char) :=
  match cs with
  | '#' :: rest => some rest
  | '0' :: 'b' :: rest => some rest
  | '0' :: 'B' :: rest => some rest
  | _ => none

/-- The characters of a binary pattern: digits, open digits and underscores. -/
def isPatternChar (c : Char) : Bool :=
  c == '0' || c == '1' || c == 'x' || c == 'X' || c == '_'

/-- The binary pattern that a whole text denotes: a mark and up to 64 characters of a pattern. -/
def binaryPattern? (cs : List Char) : Option Pattern := do
  let run ← patternMark? cs
  if run.all isPatternChar && 0 < run.length && run.length ≤ 64 then some (.ofDigits run)
  else none

/-- The pattern of an enumerated case: a binary pattern, or else an integer that is not marked by a
`#`. -/
def pattern? (cs : List Char) : Option Pattern :=
  match binaryPattern? cs with
  | some p => some p
  | none =>
    if cs.head? == some '#' then none
    else (whole? unsigned? cs).map fun n => .exactly (BitVec.ofNat 64 n)

/-- The pattern that a text denotes, outer blanks aside. -/
def readPattern : String → Except Malformed Pattern :=
  ValueKind.enumeratedValue.read fun text => pattern? (Text.trimChars text.toList)

/-- The text behind the character `c` at its front, and nothing when another character is there. -/
def expect? (c : Char) (cs : List Char) : Option (List Char) :=
  match cs with
  | d :: rest => if d = c then some rest else none
  | [] => none

/-- The bounds of a bit range at the front of a text, the upper one first.  Blanks may stand beside
the brackets and the colon. -/
def bitRange? (cs : List Char) : Option ((Nat × Nat) × List Char) := do
  let cs ← expect? '[' cs
  let (msb, cs) ← unsigned? (Text.trimStart cs)
  let cs ← expect? ':' (Text.trimStart cs)
  let (lsb, cs) ← unsigned? (Text.trimStart cs)
  let cs ← expect? ']' (Text.trimStart cs)
  some ((msb, lsb), cs)

/-- The bounds of the bit range that a text denotes, the upper one first, outer blanks aside. -/
def readBitRange : String → Except Malformed (Word × Word) :=
  ValueKind.bitRange.read fun text =>
    (whole? bitRange? (Text.trimChars text.toList)).map fun bounds =>
      (BitVec.ofNat 64 bounds.1, BitVec.ofNat 64 bounds.2)

/-- Two values with a hyphen between them. -/
def between? {α : Type} (reader : List Char → Option (α × List Char)) (cs : List Char) :
    Option ((α × α) × List Char) := do
  let (first, cs) ← reader cs
  let cs ← expect? '-' cs
  let (last, cs) ← reader cs
  some ((first, last), cs)

/-- The capital letter at the front of a text, as its code point. -/
def capital? (cs : List Char) : Option (Nat × List Char) :=
  match cs with
  | c :: rest => if 'A' ≤ c && c ≤ 'Z' then some (c.toNat, rest) else none
  | [] => none

/-- The numbers from `first` to `last`, both included. -/
def closedRange (first last : Nat) : List Nat :=
  (List.range (last + 1 - first)).map (first + ·)

/-- The parts of a text between its commas. -/
def commaParts (cs : List Char) : List (List Char) :=
  cs.splitOn ','

/-- The indices that a text denotes: a range of decimal numbers, a range of capital letters, or
else a list with commas.  A range may not run backwards and no entry of a list may be blank. -/
def indices? (cs : List Char) : Option (List String) :=
  match whole? (between? (digits? 10)) cs with
  | some (first, last) =>
    if last < first then none else some ((closedRange first last).map toString)
  | none =>
    match whole? (between? capital?) cs with
    | some (first, last) =>
      if last < first then none
      else some ((closedRange first last).map fun n => String.singleton (Char.ofNat n))
    | none =>
      let entries := (commaParts cs).map Text.trimChars
      if entries.any List.isEmpty then none else some (entries.map String.ofList)

/-- The indices of an array that a text denotes, outer blanks aside. -/
def readIndices : String → Except Malformed (List String) :=
  ValueKind.dimensionIndex.read fun text => indices? (Text.trimChars text.toList)

end Numeral

end ChipMap
