import ChipMap.Text.Scan
import ChipMap.Toml.Scalar
import ChipMap.Toml.Table

/-!
# Reading tables of options

A text is a sequence of lines.  A line is blank, a header or an entry, and a comment may stand at
its end.  Each line becomes at most one statement, and the statements together define the entries;
that two statements do not contradict each other is checked there and not here.

Values that no option has (fractions, dates, lists of tables) are not read, so a text that holds one
is refused.

* `Scan.key`, `Scan.dottedKey` — keys.
* `Scan.value` — values.
* `Scan.statement` — the statement of a line.
* `read?` — the entries that a text defines.

### What is load-bearing

Values nest, so their readers recurse on fuel and not on the text.  The fuel is made from the number
of characters that are left, and at least every other step takes one of them.

A line end may be a line feed alone or behind a carriage return.  The end of the text counts as a
line end as well, while a carriage return alone never does.
-/

namespace ChipMap.Toml

open Text (Cursor Scan)
open Text.Scan (rest sees pass expect accept takeWhile)

namespace Scan

/-- Reads separating characters, if there are any. -/
def gap : Scan Unit := do
  let _ ← takeWhile isGap

def comment : Scan Unit := do
  if ← sees "#" then
    let _ ← takeWhile isTextChar

/-- Reads the end of a line; the end of the text is one.  A carriage return without a line feed is
none. -/
def lineEnd : Scan Unit := do
  if ← accept "\n" then return
  if ← accept "\x0d\n" then return
  if (← rest).isEmpty then return
  failure

/-- Reads what may stand between the last part of a line and the next line. -/
def lineTail : Scan Unit := do
  gap
  comment
  lineEnd

/-- Reads with a reader of characters.  What the reader leaves is what is read next, and the cursor
passes everything before it. -/
def reading (reader : List Char → Option (List Char × List Char)) : Scan String := do
  let before ← rest
  match reader before with
  | some (text, after) =>
    pass (before.take (before.length - after.length))
    return String.ofList text
  | none => failure

/-- Reads a text between quotes on one line. -/
def quotedLine : Scan String := do
  if ← accept "\"" then reading basicText?
  else
    expect "'"
    reading literalText?

/-- Reads a text between quotes.  Three quotes open a text of several lines, and one quote a text
that ends on its line. -/
def quoted : Scan String := do
  if ← accept "\"\"\"" then reading basicLines?
  else if ← accept "'''" then reading literalLines?
  else quotedLine

/-- The characters of a key without quotes. -/
def isKeyChar (c : Char) : Bool := c.isAlphanum || c == '_' || c == '-'

/-- Reads a key: a text between quotes, or a run of letters, digits, underscores and hyphens. -/
def key : Scan String := do
  if ← sees "\"" then quotedLine
  else if ← sees "'" then quotedLine
  else
    let run ← takeWhile isKeyChar
    if run.isEmpty then failure else return String.ofList run

/-- Reads keys with dots between them, and gives the last one apart.  `fuel` bounds their number. -/
def dottedKey : Nat → Scan (List String × String)
  | 0 => failure
  | fuel + 1 => do
    gap
    let first ← key
    gap
    if ← accept "." then
      let (path, last) ← dottedKey fuel
      return (first :: path, last)
    else return ([], first)

/-- The characters that end a word without quotes. -/
def endsWord (c : Char) : Bool :=
  isGap c || c == '\n' || c == '\r' || c == ',' || c == ']' || c == '\x7d' || c == '#'

/-- Reads a truth value or an integer, which are the values that stand without quotes and
brackets. -/
def word : Scan Value := do
  let run ← takeWhile fun c => !endsWord c
  match String.ofList run with
  | "true" => return .boolean true
  | "false" => return .boolean false
  | _ =>
    match integer? run with
    | some n => return .integer n
    | none => failure

/-- Reads what may stand between the items of a list: gaps, comments and line ends.  `fuel` bounds
the number of lines. -/
def listGap : Nat → Scan Unit
  | 0 => failure
  | fuel + 1 => do
    gap
    if ← sees "#" then
      comment
      if !(← sees "\n") && !(← sees "\x0d\n") then failure
    if ← accept "\n" then listGap fuel
    else if ← accept "\x0d\n" then listGap fuel
    else return

mutual

/-- Reads a value.  `fuel` bounds the nesting and the number of items. -/
def value : Nat → Scan Value
  | 0 => failure
  | fuel + 1 => do
    if ← sees "\"" then return .text (← quoted)
    else if ← sees "'" then return .text (← quoted)
    else if ← accept "[" then return .list (← listItems fuel)
    else if ← accept "\x7b" then
      gap
      if ← accept "\x7d" then return .table .inline []
      else return .table .inline (← inlineEntries [] fuel)
    else word

/-- Reads the items of a list up to its closing bracket.  A comma may stand behind the last one, and
line ends may stand between any two of them. -/
def listItems : Nat → Scan (List Value)
  | 0 => failure
  | fuel + 1 => do
    listGap ((← rest).length + 1)
    if ← accept "]" then return []
    else
      let first ← value fuel
      listGap ((← rest).length + 1)
      if ← accept "," then return first :: (← listItems fuel)
      else
        expect "]"
        return [first]

/-- Reads the entries of a table in braces up to its closing brace.  No line may end between two of
them, and no comma may follow the last one. -/
def inlineEntries (entries : Entries) : Nat → Scan Entries
  | 0 => failure
  | fuel + 1 => do
    let (path, last) ← dottedKey ((← rest).length + 1)
    expect "="
    gap
    let item ← value fuel
    gap
    match define? path last item entries with
    | none => failure
    | some entries =>
      if ← accept "," then inlineEntries entries fuel
      else
        expect "\x7d"
        return entries

end

/-- Reads the header of a table. -/
def header : Scan Statement := do
  expect "["
  if ← sees "[" then failure
  let (path, last) ← dottedKey ((← rest).length + 1)
  expect "]"
  lineTail
  return .header (path ++ [last])

/-- Reads a value with its key. -/
def entry : Scan Statement := do
  let (path, last) ← dottedKey ((← rest).length + 1)
  expect "="
  gap
  let item ← value (2 * (← rest).length + 2)
  lineTail
  return .entry path last item

/-- Reads a line; a blank one has no statement, and neither has a line that holds a comment only. -/
def statement : Scan (Option Statement) := do
  gap
  if ← sees "[" then return some (← header)
  else if (← sees "#") || (← sees "\n") || (← sees "\x0d") || (← rest).isEmpty then
    lineTail
    return none
  else return some (← entry)

end Scan

/-- The statements from a cursor on.  Every line has a character, so the number of characters that
are left bounds the number of lines. -/
def statementsFrom? : Nat → Cursor → Option (List Statement)
  | _, ⟨[], _⟩ => some []
  | 0, _ => none
  | fuel + 1, cursor => do
    let (first, cursor) ← Scan.statement.run cursor
    let others ← statementsFrom? fuel cursor
    some (first.toList ++ others)

/-- The entries that a text defines.  A byte order mark at the start of the text is passed over. -/
def read? (text : String) : Option Entries := do
  let (_, cursor) ← Text.Scan.byteOrderMark.run (.ofText text)
  let statements ← statementsFrom? (cursor.rest.length + 1) cursor
  ofStatements? statements

end ChipMap.Toml
