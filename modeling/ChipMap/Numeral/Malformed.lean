/-!
# Texts that are no value

Every scalar of a document is read from the text of one element.  A text that is no value of the
expected kind is reported with the kind and the text, which is quoted as the reader was given it.

All kinds of values are read in the same way: something is looked for in the text, and the text is
refused when nothing is found.  `ValueKind.read` is this way, with the kind and the search as
parameters, and the readers of numbers, truth values, patterns, ranges, indices and literals are its
instances.

* `ValueKind` — the kinds of values that a text can fail to be, with their names in messages.
* `Malformed` — the failure, with its wording.
* `ValueKind.read` — the reader of a kind.  It returns what is found (`ValueKind.read_eq_ok_iff`),
  and it returns something or quotes the text (`ValueKind.read_cases`).
-/

namespace ChipMap

/-- The kinds of values that are read from a text.  A kind is named in the message about a text that
is none of its values. -/
inductive ValueKind where
  | integer
  | boolean
  | bitRange
  | bitWidth
  | enumeratedValue
  | dimensionIndex
  | access
  | writeEffect
  | readEffect
  | protection
  | usage
  | blockUsage
deriving DecidableEq, Repr, Inhabited

/-- The name of a kind of value in messages.  No two kinds share a name. -/
def ValueKind.label : ValueKind → String
  | integer => "integer"
  | boolean => "boolean"
  | bitRange => "bit range"
  | bitWidth => "bit width"
  | enumeratedValue => "enumerated value"
  | dimensionIndex => "dimension index"
  | access => "access"
  | writeEffect => "modified write values"
  | readEffect => "read action"
  | protection => "protection"
  | usage => "usage"
  | blockUsage => "address block usage"

/-- A text that is no value of the kind it was read as.  Why it is none is not said: the kinds are
small enough for the text to show it. -/
structure Malformed where
  /-- What the text was read as. -/
  kind : ValueKind
  /-- The text as it was given, outer blanks included. -/
  text : String
deriving DecidableEq, Repr, Inhabited

/-- The wording names the kind and quotes the text. -/
def Malformed.message (e : Malformed) : String :=
  "invalid " ++ e.kind.label ++ " '" ++ e.text ++ "'"

/-! ### Readers -/

/-- The value that is found in a text.  A text in which none is found is refused as it was given,
whatever part of it the search has looked at. -/
def ValueKind.read {α : Type} (kind : ValueKind) (find : String → Option α) (text : String) :
    Except Malformed α :=
  match find text with
  | some value => .ok value
  | none => .error ⟨kind, text⟩

section Read

variable {α : Type} (kind : ValueKind) (find : String → Option α) (text : String)

/-- **A text is read as the value that is found in it**, and as nothing else. -/
theorem ValueKind.read_eq_ok_iff {value : α} :
    kind.read find text = .ok value ↔ find text = some value := by
  unfold ValueKind.read
  cases find text with
  | some _ => simp
  | none => simp

/-- **Whatever a text is, it is read or quoted.**  No reader of a kind fails in another way. -/
theorem ValueKind.read_cases :
    (∃ value, kind.read find text = .ok value) ∨ kind.read find text = .error ⟨kind, text⟩ := by
  unfold ValueKind.read
  cases find text with
  | some value => exact .inl ⟨value, rfl⟩
  | none => exact .inr rfl

end Read

end ChipMap
