import ChipMap.Map.Extent
import ChipMap.Name.Order

/-!
# Slots of register blocks

The registers and clusters of a node become the members of a struct.  A slot is a member that asks
for a place: a register, an array of registers, a nested struct or an array of those.  An array
whose elements do not touch becomes one slot for each element.

The structs of a peripheral are found from the outside in, but a struct gets its size only after the
structs inside it have theirs.  A struct without a byte is left out, and with it everything that
asks for a place in it.

* `Storage` — the integer that holds a register.
* `Slot`, `Block` — a member that asks for a place, and all those of one struct.
* `TypeTable`, `Shaping` — the type names that were given out, and computations that give out more.
* `shapePeripheral` — the structs and bitfield types of a peripheral.

### What is load-bearing

Names are given out in the order in which the nodes are visited: the struct of a node first, then
the bitfield types of its registers, then those of its clusters.  A name that was given out stays
taken, also when its struct turns out to be empty.

Ends are computed with additions and products that stop at the greatest word and never wrap around.
-/

namespace ChipMap.Source

open Map (Register Cluster Peripheral Vector)
open Name (Claimed)

/-- The unsigned integer that holds the value of a register. -/
inductive Storage where
  | u8
  | u16
  | u32
  | u64
deriving DecidableEq, Repr, Inhabited

namespace Storage

/-- The smallest integer that has the bits of a register.  Registers that are wider than the widest
integer have that one. -/
def ofSize (size : Nat) : Storage :=
  if size ≤ 8 then u8 else if size ≤ 16 then u16 else if size ≤ 32 then u32 else u64

/-- The number of bits of an integer. -/
def bits : Storage → Nat
  | u8 => 8
  | u16 => 16
  | u32 => 32
  | u64 => 64

/-- The number of bytes of an integer. -/
def bytes (s : Storage) : Nat := s.bits / 8

def typeName (s : Storage) : String := "u" ++ toString s.bits

def all : List Storage := [u8, u16, u32, u64]

theorem le_bits_ofSize {size : Nat} (h : size ≤ 64) : size ≤ (ofSize size).bits := by
  unfold ofSize
  split <;> (try split) <;> (try split) <;> simp [bits] <;> omega

end Storage

/-- What a slot holds.  A register is told by what its member's type needs: its access, its storage
and the name of its bitfield type. -/
inductive SlotKind where
  /-- A register, or an array of `count` registers. -/
  | register (readable writable : Bool) (storage : Storage) (bitfield : Option String)
      (count : Option Nat)
  /-- A struct, or an array of `count` structs. -/
  | block (structName : String) (count : Option Nat)
deriving DecidableEq, Repr, Inhabited

/-- A member of a struct that asks for a place.  Whether it gets the place is decided when all slots
of the struct are known. -/
structure Slot where
  /-- Where the member begins, in bytes from the start of the struct. -/
  offset : Nat
  /-- The number of bytes of the member. -/
  size : Nat
  /-- The name of the member. -/
  name : String
  kind : SlotKind
deriving DecidableEq, Repr, Inhabited

/-- Where a slot ends.  The sum stops at the greatest word. -/
def Slot.stop (s : Slot) : Nat := clampedAdd s.offset s.size

/-- A struct with the slots that ask for its places.  A block has at least one byte. -/
structure Block where
  /-- The name of the struct. -/
  name : String
  /-- The number of bytes that the enclosing struct counts on. -/
  size : Nat
  slots : List Slot
deriving DecidableEq, Repr, Inhabited

/-- A register with a type for its fields. -/
structure Bitfield where
  /-- The name of the type. -/
  name : String
  storage : Storage
  register : Register
deriving DecidableEq, Repr, Inhabited

/-- The names that were given out to the types of a peripheral.  Structs and bitfield types are
declared in modules of their own, so their names do not compete. -/
structure TypeTable where
  /-- The names of structs. -/
  structNames : Claimed
  /-- The names of bitfield types. -/
  typeNames : Claimed
  /-- The bitfield types in the order of their names' claims. -/
  bitfields : List Bitfield
deriving Repr, Inhabited

def TypeTable.empty : TypeTable := ⟨.empty, .empty, []⟩

/-- A computation that gives out names of types. -/
abbrev Shaping := StateM TypeTable

/-- Whether a register has a type for its fields.  One field without cases that covers the whole
register adds nothing to the integer, so a register with such a field alone has none. -/
def hasBitfield (r : Register) : Bool :=
  match r.fields with
  | [] => false
  | [f] => f.bits != ⟨0, r.size⟩ || !f.cases.isEmpty
  | _ => true

/-- Gives out the name of a struct.  It is made from the names on the way to its node, so structs of
different nodes collide only by spelling. -/
def claimStruct (path : String) : Shaping String := do
  let table ← get
  let (name, structNames) := table.structNames.claim path
  set { table with structNames }
  return Name.camelCase name

/-- Gives out the name of the bitfield type of a register, if it has one.  The name begins with
`lead`. -/
def claimBitfield (lead : String) (r : Register) : Shaping (Option String) := do
  if hasBitfield r then
    let table ← get
    let (claimed, typeNames) := table.typeNames.claim (lead ++ r.name)
    let name := Name.camelCase claimed
    let bitfield : Bitfield := ⟨name, .ofSize r.size, r⟩
    set { table with typeNames, bitfields := table.bitfields ++ [bitfield] }
    return some name
  else return none

/-- The slots of a node that holds `size` bytes per element.  Elements that touch are one slot;
elements that do not touch are a slot each, and their number is part of their name. -/
def arraySlots (name : String) (offset : Word) (size : Nat) (vector : Option Vector)
    (kind : Option Nat → SlotKind) : List Slot :=
  match vector with
  | none => [⟨offset.toNat, size, Name.snakeCase name, kind none⟩]
  | some v =>
    -- An array without elements takes no bytes.
    if v.count = 0 then []
    else if v.stride.toNat = size then
      [⟨offset.toNat, clampedMul size v.count.toNat, Name.snakeCase name, kind (some v.count.toNat)⟩]
    else
      -- Between elements that do not touch there may be other members, so each is a slot.
      (List.range v.count.toNat).map fun i =>
        ⟨Map.elementOffset offset.toNat i v.stride.toNat, size,
          Name.snakeCase (name ++ "_" ++ toString i), kind none⟩

/-- The slots of a register: one, or one for each element of an array whose elements do not
touch. -/
def registerSlots (lead : String) (r : Register) : Shaping (List Slot) := do
  let bitfield ← claimBitfield lead r
  let storage := Storage.ofSize r.size
  return arraySlots r.name r.addressOffset storage.bytes r.vector
    (.register r.access.isReadable r.access.isWritable storage bitfield)

/-- The slots of a struct with unique names, claimed in order.  Nothing but the names changes. -/
def nameMembers (slots : List Slot) : List Slot :=
  slots.zipWith (fun s name => { s with name }) (Name.claimAll (slots.map (·.name)))

/-- The end of the last of some slots. -/
def slotsEnd (slots : List Slot) : Nat :=
  (slots.map Slot.stop).foldl max 0

/-- The struct at a path, and behind it the structs inside it.  A struct without a byte is left out
with all structs inside it.  The elements of an array of structs are as far apart as the array says
when there is room for them; otherwise the struct has the size that its slots need. -/
def shapeBlock (path lead : String) (registers : List Register) (stride : Option Nat)
    (inner : Shaping (List Slot × List Block)) : Shaping (List Block) := do
  let name ← claimStruct path
  let own ← registers.mapM (registerSlots lead)
  let (nestedSlots, blocks) ← inner
  let slots := nameMembers (own.flatten ++ nestedSlots)
  let stop := slotsEnd slots
  if stop = 0 then return []
  else
    -- The elements of an array keep their distance when their struct fits into it.
    let size :=
      match stride with
      | some s => if stop ≤ s then s else stop
      | none => stop
    return ⟨name, size, slots⟩ :: blocks

mutual

/-- The slots of a cluster, and the structs that they need.  A cluster whose struct is left out has
no slot. -/
def shapeCluster (path lead : String) : Cluster → Shaping (List Slot × List Block)
  | ⟨name, _, offset, vector, registers, clusters⟩ => do
    let innerPath := path ++ "_" ++ name
    let innerLead := lead ++ name ++ "_"
    let blocks ←
      shapeBlock innerPath innerLead registers (vector.map fun v => v.stride.toNat)
        (shapeClusters innerPath innerLead clusters)
    match blocks with
    | [] => return ([], [])
    | block :: _ => return (arraySlots name offset block.size vector (.block block.name), blocks)

/-- The slots of some clusters, and the structs that they need. -/
def shapeClusters (path lead : String) : List Cluster → Shaping (List Slot × List Block)
  | [] => return ([], [])
  | c :: rest => do
    let (slots, blocks) ← shapeCluster path lead c
    let (others, otherBlocks) ← shapeClusters path lead rest
    return (slots ++ others, blocks ++ otherBlocks)

end

/-- The types of a peripheral.  Every type that a member names is among them. -/
structure Shape where
  /-- The structs, the peripheral's own first; none if the peripheral has no register. -/
  blocks : List Block
  /-- The bitfield types. -/
  bitfields : List Bitfield
deriving Repr, Inhabited

/-- The structs and bitfield types of a peripheral. -/
def shapePeripheral (p : Peripheral) : Shape :=
  let shaping := shapeBlock p.name "" p.registers none (shapeClusters p.name "" p.clusters)
  let (blocks, table) := shaping.run .empty
  ⟨blocks, table.bitfields⟩

end ChipMap.Source
