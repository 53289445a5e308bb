import ChipMap.Text.Blank

/-!
# Identifiers from document names

A name of a document may hold any characters.  An identifier is made from it by keeping the
characters that an identifier may have; a name that leaves no letter and no digit has no identifier,
and the map of such a document is refused rather than made with a name of nothing.

Blanks and hyphens part the words of a name, so they become underscores; any other character is left
out.  Different names may therefore have one identifier, which is settled where names are claimed.

* `isIdentifierChar` — the characters of an identifier.
* `identifierChar?` — what becomes of one character.
* `identifier?` — the identifier of a name, if it has one.
* `IsIdentifier` — the form that every identifier has.

### What is load-bearing

Identifiers hold characters of ASCII only.  Hence the order of their code points is the order of
their bytes, and changing the case of a letter is a change of one character into one character.
-/

namespace ChipMap.Name

/-- The characters of an identifier: letters, digits and underscores of ASCII. -/
def isIdentifierChar (c : Char) : Bool :=
  c.isAlphanum || c == '_'

/-- A character of an identifier stays, a hyphen or a blank becomes an underscore, and any other
character is left out.  Letters beyond ASCII are among those that are left out. -/
def identifierChar? (c : Char) : Option Char :=
  if isIdentifierChar c then some c
  else if c == '-' || Text.isBlank c then some '_'
  else none

/-- The identifier of a name without its outer blanks.  An underscore is put before a leading digit,
as an identifier may not begin with one. -/
def identifierChars? (name : List Char) : Option (List Char) :=
  let chars := (Text.trimChars name).filterMap identifierChar?
  if chars.any Char.isAlphanum then
    match chars with
    | c :: rest => some (if c.isDigit then '_' :: c :: rest else c :: rest)
    | [] => none
  else none

/-- The identifier of a name, if some letter or digit of the name is left. -/
def identifier? (name : String) : Option String :=
  (identifierChars? name.toList).map String.ofList

/-- Text of the form of an identifier that holds a letter or a digit.  An underscore may stand
anywhere, at the front as well as at the end. -/
def IsIdentifier (name : String) : Prop :=
  name.toList.all isIdentifierChar = true ∧ name.toList.any Char.isAlphanum = true ∧
    ∀ c ∈ name.toList.head?, c.isDigit = false

instance (name : String) : Decidable (IsIdentifier name) :=
  -- The last part is decided for the one character, not for every character that there is.
  let first := name.toList.head?.all fun c => !c.isDigit
  decidable_of_iff
    (name.toList.all isIdentifierChar = true ∧ name.toList.any Char.isAlphanum = true ∧
      first = true)
    (by simp [first, IsIdentifier, Option.all_eq_true])

/-! ### The characters of an identifier -/

/-- What becomes of a character is a character of an identifier. -/
theorem isIdentifierChar_of_identifierChar? {c d : Char} (h : identifierChar? c = some d) :
    isIdentifierChar d = true := by
  unfold identifierChar? at h
  split at h
  · next keep => injection h with h; subst h; exact keep
  · split at h
    · injection h with h; subst h; decide
    · contradiction

end ChipMap.Name
