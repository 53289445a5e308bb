import ChipMap.Markup.CharacterData
import ChipMap.Markup.Tree
import ChipMap.Text.Scan

/-!
# Tokens of a document

A document is a sequence of tags, runs of character data, comments and processing instructions.
Each of them is recognised by its first characters, and each ends at a mark of its own, so tokens
are read one after another and without looking further ahead.  Whether they make a tree is not asked
here.

A document that breaks a rule anywhere is refused as a whole.  There is no recovery and no message
about the place, since a document that is no tree has no elements to name.

* `QName` — a name with its qualifier.
* `Token` — one part of a document.
* `Scan.token` — the reader of the token at the front.
* `tokens?` — the tokens of a document, behind a mark of byte order and a declaration.

### What is load-bearing

The reader of tokens is recursive with a fuel.  Every token has a character, so the number of
characters that are left bounds the number of tokens; and an attribute has one, so the same number
bounds the attributes of a tag.  With too little fuel nothing would be read; `tokens?` gives one
more than there are characters left.
-/

namespace ChipMap.Markup

open Text (Position Cursor Scan)
open Text.Scan (rest here sees pass expect takeWhile)

/-- A name as it is written: an optional qualifier, a colon and a base.  An absent qualifier is the
empty text, which is also what stands before a colon at the front. -/
structure QName where
  /-- What stands before the colon. -/
  qualifier : String
  /-- What stands behind the colon. -/
  base : String
deriving DecidableEq, Repr, Inhabited

/-- One part of a document.  A start tag keeps the place of its bracket, which is where its element
is. -/
inductive Token where
  /-- A start tag; `closed` when it closes its element too. -/
  | opening (name : QName) (attributes : List (QName × String)) (start : Position) (closed : Bool)
  /-- An end tag. -/
  | closing (name : QName)
  /-- Character data; `spaces` when nothing but separating characters is written. -/
  | text (content : List Char) (spaces : Bool)
  /-- A section of literal character data. -/
  | literal (content : List Char)
  /-- A comment or a processing instruction. -/
  | aside
deriving Repr

namespace Scan

/-- Reads separating characters, if there are any, and tells whether there were. -/
def spaces : Scan Bool := return !(← takeWhile isSpace).isEmpty

/-- Reads the longest run of characters of a class; the character that ends the run has to be
allowed, as those of the run have. -/
def takeAllowed (p : Char → Bool) : Scan (List Char) := do
  let run ← takeWhile p
  if !run.all isAllowed then failure
  match ← rest with
  | c :: _ => if isAllowed c then return run else failure
  | [] => return run

/-- The allowed characters before the first place where `stop` stands.  There are none if `stop`
does not stand anywhere, or if a character before it is not allowed. -/
def before? (stop : List Char) : List Char → Option (List Char)
  | [] => none
  | c :: rest =>
    if stop.isPrefixOf (c :: rest) then some []
    else if isAllowed c then (c :: ·) <$> before? stop rest
    else none

/-- Reads up to the first place where `stop` stands, and `stop` with it. -/
def takeUntil (stop : String) : Scan (List Char) := do
  match before? stop.toList (← rest) with
  | some content =>
    pass content
    expect stop
    return content
  | none => failure

/-- Reads a name that may hold colons anywhere. -/
def name : Scan (List Char) := do
  match (← takeWhile isNameChar) with
  | c :: run => if isNameStart c then return c :: run else failure
  | [] => failure

/-- Whether a text begins as a name does. -/
def beginsName (cs : List Char) : Bool := cs.head?.any isNameStart

/-- Reads a name with at most one colon.  What stands before the colon may be empty, and what stands
behind it has to begin as a name does. -/
def qualifiedName : Scan QName := do
  let run ← takeWhile isNameChar
  match run.splitOn ':' with
  | [base] => if beginsName base then return ⟨"", String.ofList base⟩ else failure
  | [qualifier, base] =>
    if beginsName base && (qualifier.isEmpty || beginsName qualifier) then
      return ⟨String.ofList qualifier, String.ofList base⟩
    else failure
  | _ => failure

/-- Reads an attribute as it is written: its name and what stands between its quotes, which are of
either kind.  The bracket of a tag may not stand there. -/
def rawAttribute : Scan (QName × List Char) := do
  let name ← qualifiedName
  let _ ← spaces
  expect "="
  let _ ← spaces
  match ← rest with
  | quote :: _ =>
    if quote == '"' || quote == '\'' then
      pass [quote]
      let content ← takeAllowed fun c => c != quote && c != '<'
      expect (String.singleton quote)
      return (name, content)
    else failure
  | [] => failure

/-- Reads an attribute and its value, with the references in it replaced. -/
def valuedAttribute : Scan (QName × String) := do
  let (name, content) ← rawAttribute
  match pieces? content with
  | some pieces => return (name, String.ofList (attributeValue pieces))
  | none => failure

/-- Reads the attributes of a start tag and its end.  An attribute needs a separating character
before it.  `fuel` bounds the number of attributes. -/
def attributes : Nat → Scan (List (QName × String) × Bool)
  | 0 => failure
  | fuel + 1 => do
    let separated ← spaces
    if ← sees "/" then
      expect "/>"
      return ([], true)
    else if ← sees ">" then
      expect ">"
      return ([], false)
    else if separated then
      let first ← valuedAttribute
      let (others, closed) ← attributes fuel
      return (first :: others, closed)
    else failure

/-- Reads a start tag.  `fuel` bounds the number of its attributes. -/
def startTag (fuel : Nat) : Scan Token := do
  let start ← here
  expect "<"
  let name ← qualifiedName
  let (list, closed) ← attributes fuel
  return .opening name list start closed

def endTag : Scan Token := do
  expect "</"
  let name ← qualifiedName
  let _ ← spaces
  expect ">"
  return .closing name

/-- Reads a comment.  Two hyphens stand only at its ends. -/
def comment : Scan Token := do
  expect "<!--"
  let content ← takeUntil "-->"
  if Text.occurs ['-', '-'] content || content.getLast? == some '-' then failure
  return .aside

/-- Reads a processing instruction.  A declaration stands only at the start of a document, so what
looks like one is refused anywhere else. -/
def instruction : Scan Token := do
  if ← sees "<?xml " then failure
  expect "<?"
  let _ ← name
  let _ ← spaces
  let _ ← takeUntil "?>"
  return .aside

/-- Reads a section of literal character data.  Nothing in it is a reference, and its line ends are
made uniform. -/
def literalSection : Scan Token := do
  expect "<![CDATA["
  let content ← takeUntil "]]>"
  return .literal (uniformLines (content.map .plain))

/-- Reads a run of character data.  The mark that ends a literal section does not stand in it, not
even outside of one. -/
def characterData : Scan Token := do
  let content ← takeAllowed (· != '<')
  if Text.occurs [']', ']', '>'] content then failure
  match pieces? content with
  | some pieces => return .text (uniformLines pieces) (content.all isSpace)
  | none => failure

/-- Reads the token at the front.  The longer marks are tried before the shorter ones that they
begin with.  `fuel` bounds the number of attributes of a start tag. -/
def token (fuel : Nat) : Scan Token := do
  if ← sees "<!--" then comment
  else if ← sees "<![CDATA[" then literalSection
  -- A declaration of a document type, or of anything else, is not allowed.
  else if ← sees "<!" then failure
  else if ← sees "<?" then instruction
  else if ← sees "</" then endTag
  else if ← sees "<" then startTag fuel
  else characterData

/-- Reads the declaration that may stand at the very start: version, encoding and standalone, of
which the first is required. -/
def declaration : Scan Unit := do
  expect "<?xml"
  let _ ← spaces
  if !(← sees "version") then failure
  let _ ← rawAttribute
  separator
  if ← sees "encoding" then
    let _ ← rawAttribute
    separator
  if ← sees "standalone" then
    let _ ← rawAttribute
  let _ ← spaces
  expect "?>"
where
  /-- Separating characters, unless the declaration ends. -/
  separator : Scan Unit := do
    if ← spaces then return
    if ← sees "?>" then return
    if (← rest).isEmpty then return
    failure

end Scan

/-- The tokens from a cursor on.  Every token and every attribute has a character, so a fuel above
the number of characters that are left bounds the number of tokens, and that of attributes of a
tag. -/
def tokensFrom? : Nat → Cursor → Option (List Token)
  | _, ⟨[], _⟩ => some []
  | 0, _ => none
  | fuel + 1, cursor => do
    let (first, cursor) ← (Scan.token fuel).run cursor
    let others ← tokensFrom? fuel cursor
    some (first :: others)

/-- What stands before the first token: a mark of byte order, and a declaration. -/
def lead : Scan Unit := do
  Text.Scan.byteOrderMark
  if ← sees "<?xml " then Scan.declaration

/-- The tokens of a document. -/
def tokens? (text : String) : Option (List Token) := do
  let (_, cursor) ← lead.run (.ofText text)
  tokensFrom? (cursor.rest.length + 1) cursor

end ChipMap.Markup
