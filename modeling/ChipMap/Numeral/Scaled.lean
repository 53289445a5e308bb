import ChipMap.Text.Blank
import ChipMap.Word.Bits
import ChipMap.Numeral.Malformed

/-!
# Scaled integers

An integer of a document is an optional sign, an optional mark of the radix, digits that may be
separated by underscores after the first of them, and an optional letter that scales the digits by a
power of 1024.  Every reader here takes the front of a text and returns the rest; the reader of a
whole text asks for an empty rest.  A plain decimal number, which is written with digits alone, is
read apart from these.

* `digit?` — the value of a character as a digit of a radix.
* `digitsValue` — the number that a run of digits and separators denotes.
* `digits?` — the digits at the front of a text, below the number of words.
* `scaled?` — sign and magnitude at the front of a text.
* `unsigned?` — the same where only zero may carry a minus sign.
* `readWord`, `readInteger`, `readBoolean` — whole texts, as words, as signed integers and as truth
  values.
* `decimal?` — the number that a text of decimal digits denotes.

### What is load-bearing

The digits have to be a word before they are scaled, and the scaled number again.  Both bounds are
tested in the natural numbers, where nothing is lost: a number that is too great is refused and
never reduced.

The sign stays apart from the number (`Scaled`).  A word refuses a minus sign unless the number is
zero, and whether there was a sign can no longer be seen of the integer zero.
-/

namespace ChipMap.Numeral

/-- The value of a character as a digit of a radix of at most 16.  Letters count from ten in either
case, and a value at or above the radix is no digit of it. -/
def digit? (radix : Nat) (c : Char) : Option Nat :=
  let value : Option Nat :=
    if '0' ≤ c && c ≤ '9' then some (c.toNat - '0'.toNat)
    else if 'a' ≤ c && c ≤ 'f' then some (c.toNat - 'a'.toNat + 10)
    else if 'A' ≤ c && c ≤ 'F' then some (c.toNat - 'A'.toNat + 10)
    else none
  value.filter (· < radix)

/-- The characters of a run: digits of the radix, and underscores between them.  Where the
underscores may stand is not said here but by the readers of runs. -/
def isRunChar (radix : Nat) (c : Char) : Bool :=
  (digit? radix c).isSome || c == '_'

/-- The number that a run denotes: its digits in order, with the underscores left out.  A run
without a digit denotes zero. -/
def digitsValue (radix : Nat) (run : List Char) : Nat :=
  (run.filterMap (digit? radix)).foldl (fun n d => n * radix + d) 0

/-- The digits at the front of a text.  The run is as long as possible, it is not empty, it does not
begin with an underscore, and its number is a word.  An underscore may end it, and several may
follow each other. -/
def digits? (radix : Nat) (cs : List Char) : Option (Nat × List Char) :=
  let run := cs.takeWhile (isRunChar radix)
  let value := digitsValue radix run
  if run.isEmpty || run.head? == some '_' || Word.count ≤ value then none
  else some (value, cs.dropWhile (isRunChar radix))

/-- The mark of the sign at the front of a text, true for a minus. -/
def sign (cs : List Char) : Bool × List Char :=
  match cs with
  | '+' :: rest => (false, rest)
  | '-' :: rest => (true, rest)
  | _ => (false, cs)

/-- The mark of the radix at the front of a text.  Without a mark the radix is ten, and a zero that
begins no mark is a digit. -/
def radix (cs : List Char) : Nat × List Char :=
  match cs with
  | '0' :: 'x' :: rest => (16, rest)
  | '0' :: 'X' :: rest => (16, rest)
  | '#' :: rest => (16, rest)
  | '0' :: 'b' :: rest => (2, rest)
  | '0' :: 'B' :: rest => (2, rest)
  | '0' :: 'o' :: rest => (8, rest)
  | '0' :: 'O' :: rest => (8, rest)
  | _ => (10, cs)

/-- The power of two that a letter of scale stands for, in either case.  Each letter multiplies by
1024 once more than the one before it. -/
def scale? (c : Char) : Option Nat :=
  if c == 'k' || c == 'K' then some 10
  else if c == 'm' || c == 'M' then some 20
  else if c == 'g' || c == 'G' then some 30
  else if c == 't' || c == 'T' then some 40
  else none

/-- The letter of scale at the front of a text, as a power of two; none scales by one. -/
def scale (cs : List Char) : Nat × List Char :=
  match cs with
  | [] => (0, [])
  | c :: rest =>
    match scale? c with
    | some power => (power, rest)
    | none => (0, c :: rest)

/-- A number with its sign apart, so that a minus zero keeps the sign it was written with. -/
structure Scaled where
  /-- Whether the number was written with a minus sign. -/
  negative : Bool
  /-- The number without its sign. -/
  magnitude : Nat
deriving DecidableEq, Repr, Inhabited

/-- The scaled integer at the front of a text: sign, mark of the radix, digits and scale, in this
order.  Its magnitude is a word. -/
def scaled? (cs : List Char) : Option (Scaled × List Char) := do
  let (negative, cs) := sign cs
  let (base, cs) := radix cs
  let (value, cs) ← digits? base cs
  let (power, cs) := scale cs
  let magnitude := value <<< power
  if magnitude < Word.count then some (⟨negative, magnitude⟩, cs) else none

/-- The scaled integer at the front of a text, if it is not below zero.  A minus sign before zero is
accepted and has no effect. -/
def unsigned? (cs : List Char) : Option (Nat × List Char) := do
  let (number, rest) ← scaled? cs
  if number.negative && number.magnitude != 0 then none else some (number.magnitude, rest)

/-- The value of a text that a reader takes up to its end.  A reader that leaves something of the
text has not read it. -/
def whole? {α : Type} (reader : List Char → Option (α × List Char)) (cs : List Char) : Option α :=
  match reader cs with
  | some (value, []) => some value
  | _ => none

/-- The signed value of a scaled integer. -/
def Scaled.toInt (n : Scaled) : Int :=
  if n.negative then -(n.magnitude : Int) else n.magnitude

/-- The word that a text denotes, outer blanks aside. -/
def readWord : String → Except Malformed Word :=
  ValueKind.integer.read fun text =>
    (whole? unsigned? (Text.trimChars text.toList)).map (BitVec.ofNat 64)

/-- The signed integer of 64 bits that a text denotes, outer blanks aside.  The least one has a
magnitude of its own, so the bound is tested on the integer. -/
def readInteger : String → Except Malformed Int :=
  ValueKind.integer.read fun text =>
    ((whole? scaled? (Text.trimChars text.toList)).map Scaled.toInt).filter isInt64

/-- The truth value that a text denotes, outer blanks aside: `true` and `false`, or `1` and `0`, as
they are written here and in no other case of letters. -/
def readBoolean : String → Except Malformed Bool :=
  ValueKind.boolean.read fun text =>
    let word := Text.trim text
    if word == "true" || word == "1" then some true
    else if word == "false" || word == "0" then some false
    else none

/-- The number that a text denotes: decimal digits, with a plus sign or not, whose value is that of
a word.  There is neither a mark of a radix nor a letter of scale, and no underscore. -/
def decimal? (cs : List Char) : Option Nat :=
  let digits :=
    match cs with
    | '+' :: rest => rest
    | _ => cs
  let value := digitsValue 10 digits
  if !digits.isEmpty && digits.all Char.isDigit && decide (value < Word.count) then some value
  else none

end ChipMap.Numeral
