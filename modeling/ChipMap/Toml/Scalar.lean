import ChipMap.Numeral.Scaled

/-!
# Scalars of options

The value of an option is an integer, a truth value or a text, or is made of such values.  An
integer is decimal with or without a sign, or has a mark of its radix and no sign; underscores stand
between digits only, and a decimal number does not begin with a zero.  A text stands between quotes:
between double quotes a backslash begins an escape, between single quotes nothing is escaped, and
three quotes enclose several lines.

* `separated?` — digits without the underscores between them.
* `integer?` — the integer that a word denotes.
* `isTextChar` — the characters that may stand in a text.
* `basicText?`, `literalText?` — texts on one line, up to the closing quote.
* `basicLines?`, `literalLines?` — texts of several lines, up to the closing quotes.

### What is load-bearing

These integers are not those of documents, although the digits are: here an underscore has a digit
on either side, there is no letter of scale, and no leading zero.  The readers of texts are
recursive on the characters that are left and return what is behind the closing quote, so a quote
that never comes is a failure and not an empty text.
-/

namespace ChipMap.Toml

/-- The digits of a word that is digits of a radix with at most one underscore between neighbours.
A word without a digit has none. -/
def separated? (radix : Nat) : List Char → Option (List Char)
  | [] => none
  | [c] => if (Numeral.digit? radix c).isSome then some [c] else none
  | c :: '_' :: rest =>
    if (Numeral.digit? radix c).isSome then (c :: ·) <$> separated? radix rest else none
  | c :: rest =>
    if (Numeral.digit? radix c).isSome then (c :: ·) <$> separated? radix rest else none

/-- The number that a word of digits of a radix denotes. -/
def magnitude? (radix : Nat) (cs : List Char) : Option Nat :=
  (separated? radix cs).map (Numeral.digitsValue radix)

/-- The number that a decimal word denotes.  Zero is written with one digit, and no other number
begins with it. -/
def decimal? (cs : List Char) : Option Nat :=
  if cs.head? == some '0' && cs.length ≠ 1 then none else magnitude? 10 cs

/-- The number that a word denotes, its sign included.  A mark of a radix is tried first, so a sign
in front of one leaves a word that denotes nothing. -/
def signed? (cs : List Char) : Option Int :=
  match cs with
  | '0' :: 'x' :: rest => (magnitude? 16 rest).map Int.ofNat
  | '0' :: 'o' :: rest => (magnitude? 8 rest).map Int.ofNat
  | '0' :: 'b' :: rest => (magnitude? 2 rest).map Int.ofNat
  | '+' :: rest => (decimal? rest).map Int.ofNat
  | '-' :: rest => (decimal? rest).map fun n => -(n : Int)
  | _ => (decimal? cs).map Int.ofNat

/-- The integer of 64 bits that a word denotes.  A greater number makes the whole text invalid. -/
def integer? (cs : List Char) : Option Int :=
  (signed? cs).filter isInt64

/-- The characters that separate the parts of a line. -/
def isGap (c : Char) : Bool := c == ' ' || c == '\t'

/-- The characters that may stand in a text or a comment: all but the controls, and the tab. -/
def isTextChar (c : Char) : Bool :=
  c == '\t' || (decide (0x20 ≤ c.toNat) && decide (c.toNat ≠ 0x7F))

/-- The character whose code point some hexadecimal digits denote.  Not every number below the
greatest code point is one. -/
def codePoint? (digits : List Char) : Option Char := do
  let values ← digits.mapM (Numeral.digit? 16)
  let n := values.foldl (fun n d => n * 16 + d) 0
  if n.isValidChar then some (Char.ofNat n) else none

/-- The character of an escape of one letter, or of an escaped quote or backslash. -/
def shortEscape? (c : Char) : Option Char :=
  if c == 'b' then some (Char.ofNat 0x8)
  else if c == 't' then some '\t'
  else if c == 'n' then some '\n'
  else if c == 'f' then some (Char.ofNat 0xC)
  else if c == 'r' then some '\r'
  else if c == '"' then some '"'
  else if c == '\\' then some '\\'
  else none

/-- A character put before the text that a reader gives. -/
private def consText (c : Char) (t : Option (List Char × List Char)) :
    Option (List Char × List Char) :=
  t.map fun (text, rest) => (c :: text, rest)

/-- A text on one line, up to its closing double quote, and what is behind the quote. -/
def basicText? : List Char → Option (List Char × List Char)
  | '"' :: rest => some ([], rest)
  | '\\' :: 'u' :: a :: b :: c :: d :: rest => do
    let x ← codePoint? [a, b, c, d]
    consText x (basicText? rest)
  | '\\' :: 'U' :: a :: b :: c :: d :: e :: f :: g :: h :: rest => do
    let x ← codePoint? [a, b, c, d, e, f, g, h]
    consText x (basicText? rest)
  | '\\' :: c :: rest => do
    let x ← shortEscape? c
    consText x (basicText? rest)
  | c :: rest => if isTextChar c && c != '\\' then consText c (basicText? rest) else none
  | [] => none

/-- Whether a backslash before these characters ends its line: there are only gaps up to the line
end. -/
def endsLine (cs : List Char) : Bool :=
  match cs.dropWhile isGap with
  | '\n' :: _ => true
  | '\r' :: '\n' :: _ => true
  | _ => false

/-- A text of several lines, up to its closing double quotes, and what is behind them.  Up to two
quotes more may stand before the closing ones.  A backslash at the end of a line takes away all gaps
and line ends behind it; while these are taken away, `skipping` is set. -/
def basicLinesFrom? : Bool → List Char → Option (List Char × List Char)
  | _, '"' :: '"' :: '"' :: '"' :: '"' :: rest => some (['"', '"'], rest)
  | _, '"' :: '"' :: '"' :: '"' :: rest => some (['"'], rest)
  | _, '"' :: '"' :: '"' :: rest => some ([], rest)
  | skipping, '\r' :: '\n' :: rest =>
    if skipping then basicLinesFrom? true rest else consText '\n' (basicLinesFrom? false rest)
  | _, '\\' :: 'u' :: a :: b :: c :: d :: rest => do
    let x ← codePoint? [a, b, c, d]
    consText x (basicLinesFrom? false rest)
  | _, '\\' :: 'U' :: a :: b :: c :: d :: e :: f :: g :: h :: rest => do
    let x ← codePoint? [a, b, c, d, e, f, g, h]
    consText x (basicLinesFrom? false rest)
  | _, '\\' :: c :: rest =>
    if endsLine (c :: rest) then
      if c == '\r' then basicLinesFrom? true (c :: rest) else basicLinesFrom? true rest
    else do
      let x ← shortEscape? c
      consText x (basicLinesFrom? false rest)
  | skipping, c :: rest =>
    if skipping && (isGap c || c == '\n') then basicLinesFrom? true rest
    else if (isTextChar c && c != '\\') || c == '\n' then consText c (basicLinesFrom? false rest)
    else none
  | _, [] => none

/-- The characters behind a line end at the front, or all of them if there is none. -/
def afterLineEnd (cs : List Char) : List Char :=
  match cs with
  | '\n' :: rest => rest
  | '\r' :: '\n' :: rest => rest
  | _ => cs

/-- A text of several lines.  A line end directly behind the opening quotes does not count. -/
def basicLines? (cs : List Char) : Option (List Char × List Char) :=
  basicLinesFrom? false (afterLineEnd cs)

/-- A text on one line, up to its closing single quote, and what is behind the quote. -/
def literalText? : List Char → Option (List Char × List Char)
  | '\'' :: rest => some ([], rest)
  | c :: rest => if isTextChar c then consText c (literalText? rest) else none
  | [] => none

/-- A text of several lines without escapes, up to its closing single quotes, and what is behind
them. -/
def literalLinesFrom? : List Char → Option (List Char × List Char)
  | '\'' :: '\'' :: '\'' :: '\'' :: '\'' :: rest => some (['\'', '\''], rest)
  | '\'' :: '\'' :: '\'' :: '\'' :: rest => some (['\''], rest)
  | '\'' :: '\'' :: '\'' :: rest => some ([], rest)
  | '\r' :: '\n' :: rest => consText '\n' (literalLinesFrom? rest)
  | c :: rest => if isTextChar c || c == '\n' then consText c (literalLinesFrom? rest) else none
  | [] => none

/-- A text of several lines without escapes.  A line end directly behind the opening quotes does not
count. -/
def literalLines? (cs : List Char) : Option (List Char × List Char) :=
  literalLinesFrom? (afterLineEnd cs)

end ChipMap.Toml
