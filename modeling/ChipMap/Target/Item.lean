import ChipMap.Map.Basic
import ChipMap.Target.Path

/-!
# Items of a device

A path is followed from the device inwards.  Addresses are words: the sum of the positions on the
way wraps around at the end of the address space.

* `Item` — a peripheral, a cluster, a register or a field, with its address.
* `elementAddress` — the position of an element of a node.
* `Item.enter` — the item of a segment inside another item.
* `find` — the item of a path.

### What is load-bearing

An item carries its address along, so no step looks back at what is around it.  The address of a
field is that of its register, and the bits of the field say where it is in there.

A segment looks for a register first and for a cluster only when there is none of the name
(`enterNode`).  An array is entered through one of its elements, and anything else without a number.
-/

namespace ChipMap.Target

open Map (Device Peripheral Cluster Register Field Vector)
open Description (ItemKind)

/-- An item of a device with its address.  A peripheral has its address in itself. -/
inductive Item where
  | peripheral (p : Peripheral)
  | cluster (c : Cluster) (address : Word)
  | register (r : Register) (address : Word)
  /-- A field, with its register and the address of the register. -/
  | field (r : Register) (f : Field) (address : Word)
deriving Repr, Inhabited

namespace Item

def kind : Item → ItemKind
  | peripheral _ => .peripheral
  | cluster _ _ => .cluster
  | register _ _ => .register
  | field _ _ _ => .field

/-- The address of an item; that of a field is the address of its register. -/
def address : Item → Word
  | peripheral p => p.baseAddress
  | cluster _ a => a
  | register _ a => a
  | field _ _ a => a

def name : Item → String
  | peripheral p => p.name
  | cluster c _ => c.name
  | register r _ => r.name
  | field _ f _ => f.name

/-- The number of bits of a register or a field. -/
def bits : Item → Option Nat
  | register r _ => some r.size
  | field _ f _ => some f.width
  | _ => none

end Item

/-- The position of the element of a number of a node at `offset`.  An array needs a number that it
has, and any other node may have none.  The product and the sum are those of words. -/
def elementAddress (name : String) (offset : Word) (vector : Option Vector) (index : Option Nat) :
    Except LookupFault Word :=
  match vector, index with
  | none, none => .ok offset
  | none, some _ => .error (.invalidPath name)
  | some _, none => .error (.missingIndex name)
  | some v, some i =>
    if i < v.count.toNat then .ok (offset + BitVec.ofNat 64 i * v.stride)
    else .error (.indexOutOfRange name i v.count.toNat)

/-- The register or cluster of a segment among those of a node at `base`.  The path of the node is
`scope`, which a fault names when there is neither. -/
def enterNode (scope : String) (base : Word) (registers : List Register) (clusters : List Cluster)
    (s : Segment) : Except LookupFault Item :=
  match registers.find? fun r => r.name == s.name with
  | some r => do
    let offset ← elementAddress s.name r.addressOffset r.vector s.index
    return .register r (base + offset)
  | none =>
    match clusters.find? fun c => c.name == s.name with
    | some c => do
      let offset ← elementAddress s.name c.addressOffset c.vector s.index
      return .cluster c (base + offset)
    | none => .error (.unknownItem scope s.name)

/-- The item of a segment inside another item.  The whole path is `path`, and that of the outer item
is `scope`. -/
def Item.enter (path scope : String) (item : Item) (s : Segment) : Except LookupFault Item :=
  match item with
  | peripheral p => enterNode scope p.baseAddress p.registers p.clusters s
  | cluster c a => enterNode scope a c.registers c.clusters s
  | register r a =>
    match r.fields.find? fun f => f.name == s.name with
    | none => .error (.unknownItem scope s.name)
    | some f => if s.index.isSome then .error (.invalidPath path) else .ok (field r f a)
  | field _ _ _ => .error (.invalidPath path)

/-- The item that the rest of a path leads to from an item.  The recursion is on the texts that are
left, and `scope` is the path so far. -/
def follow (path : String) : String → Item → List String → Except LookupFault Item
  | _, item, [] => .ok item
  | scope, item, text :: rest => do
    let s ← Segment.read text
    let inner ← item.enter path scope s
    follow path (scope ++ "." ++ text) inner rest

/-- The peripheral of a segment. -/
def enterDevice (d : Device) (path : String) (s : Segment) : Except LookupFault Peripheral :=
  if s.index.isSome then .error (.invalidPath path)
  else
    match d.peripherals.find? fun p => p.name == s.name with
    | some p => .ok p
    | none => .error (.unknownItem d.name s.name)

/-- The item of a path.  The first segment names a peripheral, and each further one an item inside
the item before it. -/
def find (d : Device) (path : String) : Except LookupFault Item :=
  match pathParts path with
  | [] => .error (.invalidPath path)
  | first :: rest => do
    let s ← Segment.read first
    let p ← enterDevice d path s
    follow path p.name (.peripheral p) rest

end ChipMap.Target
