import ChipMap.Name.Identifier

/-!
# Cases of names

The produced source follows the naming habits of its language: modules and members are in snake
case, types and variants in camel case, constants in capitals.  Each of the three is made from the
words of a name, so a name is first cut into words and then put together again in one of the styles.

Words are parted by punctuation, and by a capital that follows a small letter, which is where a hump
begins.  A run of capitals is one word: it is an abbreviation more often than a row of single
letters.

* `humps` — a text without punctuation, cut where a capital follows a small letter.
* `caseWords` — the words of a name.
* `snakeCase`, `camelCase`, `constantCase` — the three cases.
* `reservedWords`, `escapeReserved` — the words that no identifier may be, and the underscore that
  keeps a name from being one.

### What is load-bearing

A name may begin with a digit once punctuation is dropped, and an identifier may not.  So the words
get an underscore in front of them (`caseLead`), in the same way in all three cases.
-/

namespace ChipMap.Name

/-- The pieces of a text that begin at its start and at each capital that follows a small letter.
Runs of capitals stay together, and no piece begins at a digit that follows a letter. -/
def humps : List Char → List (List Char)
  | [] => []
  | [c] => [[c]]
  | c :: d :: rest =>
    if c.isLower && d.isUpper then [c] :: humps (d :: rest)
    else
      match humps (d :: rest) with
      | word :: words => (c :: word) :: words
      | [] => [[c]]

/-- The words of a name: it is cut at every character that is no letter or digit of ASCII, and the
pieces are cut into their humps.  No word is empty. -/
def caseWords (name : String) : List (List Char) :=
  (name.toList.splitOnP fun c => !c.isAlphanum).flatMap humps

/-- What stands before the words of a name: an underscore when the first word begins with a digit,
as an identifier may not begin with one. -/
def caseLead (words : List (List Char)) : List Char :=
  match words with
  | (c :: _) :: _ => if c.isDigit then ['_'] else []
  | _ => []

/-- The words of the produced language that no identifier may be, those that are reserved for later
use included. -/
def reservedWords : List String :=
  ["Self", "abstract", "as", "async", "await", "become", "box", "break", "const", "continue",
    "crate", "do", "dyn", "else", "enum", "extern", "false", "final", "fn", "for", "gen", "if",
    "impl", "in", "let", "loop", "macro", "match", "mod", "move", "mut", "override", "priv",
    "pub", "ref", "return", "self", "static", "struct", "super", "trait", "true", "try", "type",
    "typeof", "unsafe", "unsized", "use", "virtual", "where", "while", "yield"]

/-- A reserved word gets an underscore behind it; any other name stays.  The result is reserved in
neither case, as no reserved word ends in an underscore. -/
def escapeReserved (name : String) : String :=
  if reservedWords.contains name then name ++ "_" else name

def joinWords (words : List (List Char)) : List Char :=
  List.intercalate ['_'] words

/-- A word in camel case: its first letter a capital and the rest small. -/
def capitalize : List Char → List Char
  | [] => []
  | c :: rest => c.toUpper :: rest.map Char.toLower

/-- The words of a name in small letters, with underscores between them. -/
def snakeCase (name : String) : String :=
  let words := caseWords name
  escapeReserved
    (String.ofList (caseLead words ++ joinWords (words.map fun w => w.map Char.toLower)))

/-- The words of a name with a capital each, with nothing between them. -/
def camelCase (name : String) : String :=
  let words := caseWords name
  escapeReserved (String.ofList (caseLead words ++ words.flatMap capitalize))

/-- The words of a name in capitals, with underscores between them.  No reserved word is in
capitals only, so none is escaped. -/
def constantCase (name : String) : String :=
  let words := caseWords name
  String.ofList (caseLead words ++ joinWords (words.map fun w => w.map Char.toUpper))

end ChipMap.Name
