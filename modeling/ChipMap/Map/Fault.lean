import ChipMap.Numeral.Grouped
import ChipMap.Word.Bits

/-!
# Faults of a map

A description whose layout or whose names break a rule has no map.  The rules are those without
which a map could not be used: every node has a name and a position, every register fits a word, the
fields of a register fit it and share no bits, and values fit their fields.  Overlaps of registers
are none of them, since hardware has such registers on purpose.

* `MapFault` — the faults, with `MapFault.message`.

The path of a fault is made of the names of the document and not of the identifiers of the map, as
it is for those who edit the document.
-/

namespace ChipMap.Map

/-- Why a description has no map.  A fault names its node by a path, and quotes what is wrong with
it. -/
inductive MapFault where
  /-- A name leaves no letter and no digit for an identifier. -/
  | unrepresentableName (path name : String)
  /-- A node has no position although it derives from no other node. -/
  | missing (path element : String)
  /-- A register has no bits, or more than a word. -/
  | registerSize (path : String) (size : Word)
  /-- A field ends beyond its register. -/
  | fieldOutOfBounds (register field : String) (bits : Span) (size : Nat)
  /-- Two fields of a register share bits. -/
  | fieldOverlap (register first second : String) (bits : Span)
  /-- An enumerated value needs more bits than its field has. -/
  | valueOutOfRange (field name : String) (value : Word) (width : Nat)
  /-- The number of an interrupt is no signed integer of 32 bits. -/
  | interruptOutOfRange (peripheral name : String) (value : Int)
deriving DecidableEq, Repr, Inhabited

/-- A range of bits is written half open, with the bracket and the parenthesis that say so. -/
def renderBits (s : Span) : String :=
  "[" ++ toString s.start ++ ", " ++ toString s.stop ++ ")"

/-- The wording of a fault. -/
def MapFault.message : MapFault → String
  | unrepresentableName path name =>
    path ++ ": name '" ++ name ++ "' cannot be turned into an identifier"
  | missing path element =>
    path ++ ": missing '" ++ element ++ "' after inheritance resolution"
  | registerSize path size =>
    path ++ ": register size " ++ toString size.toNat ++ " is outside 1..=64"
  | fieldOutOfBounds register field bits size =>
    register ++ ": field '" ++ field ++ "' bits " ++ renderBits bits ++
      " exceed the register size of " ++ toString size ++ " bits"
  | fieldOverlap register first second bits =>
    register ++ ": fields '" ++ first ++ "' and '" ++ second ++ "' overlap in bits " ++
      renderBits bits
  | valueOutOfRange field name value width =>
    field ++ ": enumerated value '" ++ name ++ "' (" ++ Numeral.hexPlain value.toNat ++
      ") does not fit in " ++ toString width ++ " bits"
  | interruptOutOfRange peripheral name value =>
    peripheral ++ ": interrupt '" ++ name ++ "' has out of range value " ++ toString value

end ChipMap.Map
