import ChipMap.Map.Extent
import ChipMap.Text.Scan

/-!
# Arrays of nodes

A node with a dimension stands for several nodes.  Its name may hold a mark for the index: `%s` is
replaced by the index, and `[%s]` says that the node is an array of its own.  Registers and clusters
keep such arrays, and peripherals and fields are always expanded, since a map has no arrays of
these.

* `substitute` — the name of one element.
* `instances` — the elements of a node that is always expanded, with their positions.
* `Placement`, `placements` — the nodes that a register or a cluster stands for.

### What is load-bearing

A register whose name holds no mark at all is an array, and a peripheral of such a name is expanded
with the index behind its name.  The marks are removed from the name of an array, and an index that
is put in place of a mark is not searched for marks again.
-/

namespace ChipMap.Map

open Description (Dimension)

/-- The mark of an index in a name. -/
def indexMark : String := "%s"

/-- The mark of an index that makes an array. -/
def arrayMark : String := "[%s]"

/-- The name of the element of an index, for a node that is always expanded.  A name without a mark
gets the index behind it. -/
def substitute (name index : String) : String :=
  if Text.contains name arrayMark then Text.replaceAll name arrayMark index
  else if Text.contains name indexMark then Text.replaceAll name indexMark index
  else name ++ index

/-- The indices of an array with the positions of their elements. -/
def indexed (start : Nat) (d : Dimension) : List (String × Nat) :=
  d.elements.zipIdx.map fun (index, i) => (index, elementOffset start i d.increment.toNat)

/-- The elements of a node that is always expanded, with their names and positions.  A node without
a dimension is one element. -/
def instances (name : String) (start : Nat) : Option Dimension → List (String × Nat)
  | none => [(name, start)]
  | some d => (indexed start d).map fun (index, position) => (substitute name index, position)

/-- One node that a register or a cluster of a description stands for. -/
structure Placement where
  /-- The name, before it is made an identifier. -/
  name : String
  /-- The distance from the start of the enclosing node in bytes. -/
  offset : Word
  /-- The array that the node is, if it is one. -/
  vector : Option Vector
deriving DecidableEq, Repr, Inhabited

/-- A name whose mark asks for one node per element. -/
def isExpanded (name : String) : Bool :=
  Text.contains name indexMark && !Text.contains name arrayMark

/-- The nodes that a register or a cluster stands for: one for each element, or else one array.
Elements lie as far apart as the dimension says, whether they touch or not. -/
def placements (name : String) (offset : Word) : Option Dimension → List Placement
  | none => [⟨name, offset, none⟩]
  | some d =>
    if isExpanded name then
      (indexed offset.toNat d).map fun (index, position) =>
        ⟨Text.replaceAll name indexMark index, BitVec.ofNat 64 position, none⟩
    else
      [⟨Text.replaceAll (Text.replaceAll name arrayMark "") indexMark "", offset,
        some ⟨d.count, d.increment⟩⟩]

end ChipMap.Map
