/-!
# Structured text

A map can be written out as structured text for other programs.  Values are written over several
lines: every entry of a list or an object stands on a line of its own, two spaces further in than
the brackets around it.  Only writing is needed, so a value is the tree of what is written and
nothing is ever read back.

* `Value` — null, truth values, integers, texts, lists and objects.
* `quote` — a text between quotes, with its escapes.
* `Value.render` — the text of a value.

### What is load-bearing

An object is a list of entries and no map from keys: its entries are written in the order in which
they are given, so the text of a map is settled by the map alone.  Texts are escaped character by
character, with an escape of one letter where there is one (`escapeChar`).
-/

namespace ChipMap.Json

/-- A structured value.  The entries of an object keep their order, and nothing is asked of their
keys. -/
inductive Value where
  | null
  | bool (b : Bool)
  | integer (n : Int)
  | text (s : String)
  | list (items : List Value)
  | object (entries : List (String × Value))
deriving Repr, Inhabited

namespace Value

def nat (n : Nat) : Value := .integer n

/-- The value of something that may be absent; what is absent is null, and stands under its key all
the same. -/
def ofOption {α : Type} (f : α → Value) : Option α → Value
  | some a => f a
  | none => .null

def ofList {α : Type} (f : α → Value) (items : List α) : Value :=
  .list (items.map f)

end Value

/-- The digits of a number below 256, two in number. -/
def twoHexDigits (n : Nat) : List Char :=
  [Nat.digitChar (n / 16 % 16), Nat.digitChar (n % 16)]

/-- A character between quotes.  The quote, the backslash and the controls are escaped; every other
character stands for itself. -/
def escapeChar (c : Char) : List Char :=
  if c == '"' then ['\\', '"']
  else if c == '\\' then ['\\', '\\']
  else if c == '\n' then ['\\', 'n']
  else if c == '\r' then ['\\', 'r']
  else if c == '\t' then ['\\', 't']
  else if c.toNat = 0x8 then ['\\', 'b']
  else if c.toNat = 0xC then ['\\', 'f']
  else if c.toNat < 0x20 then ['\\', 'u', '0', '0'] ++ twoHexDigits c.toNat
  else [c]

/-- A text between quotes, with the characters escaped that have to be. -/
def quote (s : String) : String :=
  "\"" ++ String.ofList (s.toList.flatMap escapeChar) ++ "\""

/-- A line end and the spaces that begin the next line, two for each level. -/
def lineAt (depth : Nat) : String :=
  "\n" ++ String.ofList (List.replicate (2 * depth) ' ')

/-- Entries between brackets, each on a line of its own.  Brackets without an entry touch. -/
def bracketed (opening closing : String) (depth : Nat) (entries : List String) : String :=
  if entries.isEmpty then opening ++ closing
  else
    opening ++ lineAt (depth + 1) ++ String.intercalate ("," ++ lineAt (depth + 1)) entries ++
      lineAt depth ++ closing

mutual

/-- The text of a value whose first line stands at a depth. -/
def Value.renderAt (depth : Nat) : Value → String
  | .null => "null"
  | .bool b => if b then "true" else "false"
  | .integer n => toString n
  | .text s => quote s
  | .list items => bracketed "[" "]" depth (renderItems (depth + 1) items)
  | .object entries => bracketed "\x7b" "\x7d" depth (renderEntries (depth + 1) entries)

/-- The texts of the items of a list. -/
def renderItems (depth : Nat) : List Value → List String
  | [] => []
  | item :: rest => item.renderAt depth :: renderItems depth rest

/-- The texts of the entries of an object. -/
def renderEntries (depth : Nat) : List (String × Value) → List String
  | [] => []
  | (key, value) :: rest =>
    (quote key ++ ": " ++ value.renderAt depth) :: renderEntries depth rest

end

/-- The text of a value. -/
def Value.render (v : Value) : String := v.renderAt 0

end ChipMap.Json
