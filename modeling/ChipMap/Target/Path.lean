import ChipMap.Numeral.Scaled

/-!
# Paths of items

An item of a device is named by a path such as `DMA.CH[2].CNT`: names with dots between them, each
with the number of an element in brackets where the item is an array.

Reading a path needs no device.  What is wrong with the writing of a path is therefore told apart
from what is wrong with what it names.

* `LookupFault` — why a path names no item, with `LookupFault.message`.
* `Segment` — one name of a path with its number.
* `Segment.read` — the segment that a text denotes.
* `Segment.render`, `renderPath` — the texts of a segment and of a path.
* `pathParts` — the texts of the segments of a path.

### What is load-bearing

A name ends at its first opening bracket, and behind the number only a closing bracket may stand.  A
name that is not empty and has neither brackets nor dots is thus read back as it was written
(`Segment.render`).
-/

namespace ChipMap.Target

/-- Why a path names no item.  Nothing else can go wrong while a path is followed. -/
inductive LookupFault where
  /-- The path or a part of it is not written as one, or has a number where no array is. -/
  | invalidPath (text : String)
  /-- The item at a path has no item of a name inside it. -/
  | unknownItem (path name : String)
  /-- An array is named without the number of an element. -/
  | missingIndex (name : String)
  /-- An array has no element of a number. -/
  | indexOutOfRange (name : String) (index count : Nat)
deriving DecidableEq, Repr, Inhabited

/-- The wording of a fault. -/
def LookupFault.message : LookupFault → String
  | invalidPath text => "invalid item path '" ++ text ++ "'"
  | unknownItem path name => "'" ++ path ++ "' has no item named '" ++ name ++ "'"
  | missingIndex name => "'" ++ name ++ "' is an array and needs an index"
  | indexOutOfRange name index count =>
    "index " ++ toString index ++ " is out of range for '" ++ name ++ "' with " ++
      toString count ++ " elements"

/-- One part of a path: a name, and the number of an element where there is one. -/
structure Segment where
  name : String
  index : Option Nat
deriving DecidableEq, Repr, Inhabited

namespace Segment

/-- The text before a closing bracket at the end. -/
def beforeBracket? (cs : List Char) : Option (List Char) :=
  if cs.getLast? == some ']' then some cs.dropLast else none

/-- The segment that a text denotes: a name, and behind its first bracket the number of an element.
Neither the name nor the number may be missing there. -/
def read (text : String) : Except LookupFault Segment :=
  let cs := text.toList
  let name := cs.takeWhile (· != '[')
  match cs.dropWhile (· != '[') with
  | [] => if name.isEmpty then .error (.invalidPath text) else .ok ⟨text, none⟩
  | _ :: rest =>
    match (beforeBracket? rest).bind Numeral.decimal? with
    | some i =>
      if name.isEmpty then .error (.invalidPath text) else .ok ⟨String.ofList name, some i⟩
    | none => .error (.invalidPath text)

/-- A segment is written as its name, with the number in brackets. -/
def render (s : Segment) : String :=
  match s.index with
  | none => s.name
  | some i => s.name ++ "[" ++ toString i ++ "]"

end Segment

/-- A path is written as its segments with dots between them. -/
def renderPath (segments : List Segment) : String :=
  String.intercalate "." (segments.map Segment.render)

/-- The texts between the dots of a path. -/
def pathParts (path : String) : List String :=
  (path.toList.splitOn '.').map String.ofList

end ChipMap.Target
