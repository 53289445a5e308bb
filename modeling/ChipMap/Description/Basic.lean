import ChipMap.Description.Literal
import ChipMap.Numeral.Pattern

/-!
# Descriptions of chips

A description says of a chip what its document says: which peripherals it has, which registers and
clusters of registers they have, and which fields the registers have.  An attribute that the
document leaves out stays absent, so that a node that derives from another can tell an absent
attribute from a present one.  A description is what inheritance is resolved in; addresses, names
and sizes are settled afterwards.

* `ItemKind` — the kinds of nodes.
* `Properties`, `Dimension`, `BitRange`, `WriteConstraint` — groups of attributes.
* `EnumeratedCase`, `EnumeratedSet`, `Field`, `Register`, `ClusterInfo`, `Item`, `Interrupt`,
  `AddressBlock`, `Peripheral`, `Device` — the nodes, from the inside out.

### What is load-bearing

Registers and clusters are one type (`Item`), as they are listed together, share their names and are
searched together.  Only clusters nest, so `Item` is the one recursive type of a description, and
what is said of a cluster besides its children is a record of its own (`ClusterInfo`) that is merged
like any other.
-/

namespace ChipMap.Description

/-- The kinds of nodes that can derive from another node.  A node derives from one of its own
kind. -/
inductive ItemKind where
  | peripheral
  | cluster
  | register
  | field
deriving DecidableEq, Repr, Inhabited

def ItemKind.label : ItemKind → String
  | peripheral => "peripheral"
  | cluster => "cluster"
  | register => "register"
  | field => "field"

/-- The properties of registers, which a node passes on to the nodes inside it.  A peripheral and a
cluster have no use for them but this. -/
structure Properties where
  /-- The width in bits. -/
  size : Option Word
  /-- The allowed accesses. -/
  access : Option Access
  /-- The software that may access. -/
  protection : Option Protection
  /-- The value after a reset. -/
  resetValue : Option Word
  /-- The bits of the value after a reset that are defined. -/
  resetMask : Option Word
deriving DecidableEq, Repr, Inhabited

namespace Properties

/-- No property is given. -/
def empty : Properties := ⟨none, none, none, none, none⟩

/-- The properties of `p`, with those that are absent taken from `outer`.  Each property is taken on
its own. -/
def orElse (p outer : Properties) : Properties where
  size := p.size.or outer.size
  access := p.access.or outer.access
  protection := p.protection.or outer.protection
  resetValue := p.resetValue.or outer.resetValue
  resetMask := p.resetMask.or outer.resetMask

@[simp] theorem orElse_empty (p : Properties) : p.orElse empty = p := by
  cases p
  simp [orElse, empty]

@[simp] theorem empty_orElse (p : Properties) : empty.orElse p = p := by
  cases p
  simp [orElse, empty]

end Properties

/-- A node that stands for an array of nodes.  Its elements are told apart by name or are members of
one array, which its name decides and nothing here. -/
structure Dimension where
  /-- How many elements the array has. -/
  count : Word
  /-- The distance of neighbours, in the unit of the node's position. -/
  increment : Word
  /-- The texts that tell the names of the elements apart, one for each element. -/
  indices : Option (List String)
  /-- A name for the array as a whole. -/
  name : Option String
deriving DecidableEq, Repr, Inhabited

/-- The texts that tell the elements apart: the given ones, or else the numbers from zero. -/
def Dimension.elements (d : Dimension) : List String :=
  match d.indices with
  | some texts => texts
  | none => (List.range d.count.toNat).map toString

/-- Which values may be written.  At most one constraint is given. -/
inductive WriteConstraint where
  /-- Only the value that was read last, if the flag is set. -/
  | asRead (required : Bool)
  /-- Only enumerated values, if the flag is set. -/
  | enumerated (required : Bool)
  /-- Only values between two bounds, both included. -/
  | within (minimum maximum : Word)
deriving DecidableEq, Repr, Inhabited

/-- The bits of a field, from the lowest to the highest, both included.  A range that a document
gives the other way around is refused when it is read. -/
structure BitRange where
  /-- The lowest bit. -/
  lsb : Word
  /-- The highest bit. -/
  msb : Word
deriving DecidableEq, Repr, Inhabited

/-- A named value of a field.  A pattern with open bits names several values at once. -/
structure EnumeratedCase where
  /-- The name of the value. -/
  name : String
  /-- What the value means. -/
  description : Option String
  /-- The value; only the default case of a set may have none. -/
  value : Option Pattern
  /-- Whether the case stands for all values that no other case names. -/
  isDefault : Bool
deriving DecidableEq, Repr, Inhabited

/-- A set of named values of a field.  A field may have one set for reads and another for writes. -/
structure EnumeratedSet where
  /-- The name of the set. -/
  name : Option String
  /-- The accesses that the set is for. -/
  usage : Option Usage
  /-- The named values in order. -/
  cases : List EnumeratedCase
deriving DecidableEq, Repr, Inhabited

/-- A field of a register.  What its values mean is in sets of named values, for reads, for writes
or for both. -/
structure Field where
  name : String
  /-- The path of the field that this one derives from. -/
  derivedFrom : Option String
  description : Option String
  /-- The bits of the field; only a field that derives from another may have none. -/
  bitRange : Option BitRange
  access : Option Access
  writeEffect : Option WriteEffect
  writeConstraint : Option WriteConstraint
  readEffect : Option ReadEffect
  dimension : Option Dimension
  enumeratedSets : List EnumeratedSet
deriving DecidableEq, Repr, Inhabited

/-- A register, with its fields in the order of the document. -/
structure Register where
  name : String
  /-- The path of the register that this one derives from. -/
  derivedFrom : Option String
  displayName : Option String
  description : Option String
  alternateGroup : Option String
  alternateRegister : Option String
  /-- The distance from the start of the enclosing node in bytes; only a register that derives from
  another may have none. -/
  addressOffset : Option Word
  properties : Properties
  dimension : Option Dimension
  writeEffect : Option WriteEffect
  writeConstraint : Option WriteConstraint
  readEffect : Option ReadEffect
  fields : List Field
deriving DecidableEq, Repr, Inhabited

/-- What is said of a cluster besides its children. -/
structure ClusterInfo where
  name : String
  /-- The path of the cluster that this one derives from. -/
  derivedFrom : Option String
  description : Option String
  headerStructName : Option String
  /-- The distance from the start of the enclosing node in bytes; only a cluster that derives from
  another may have none. -/
  addressOffset : Option Word
  properties : Properties
  dimension : Option Dimension
deriving DecidableEq, Repr, Inhabited

/-- A child of a peripheral or of a cluster. -/
inductive Item where
  /-- A register. -/
  | register (r : Register)
  /-- A cluster with its children in order. -/
  | cluster (info : ClusterInfo) (children : List Item)
deriving Repr, Inhabited

namespace Item

def name : Item → String
  | register r => r.name
  | cluster info _ => info.name

def kind : Item → ItemKind
  | register _ => .register
  | cluster _ _ => .cluster

/-- The path of the node that a child derives from. -/
def derivedFrom : Item → Option String
  | register r => r.derivedFrom
  | cluster info _ => info.derivedFrom

/-- The children of a child; a register has none. -/
def children : Item → List Item
  | register _ => []
  | cluster _ children => children

end Item

/-- A part of the addresses of a peripheral. -/
structure AddressBlock where
  offset : Word
  size : Word
  usage : Option BlockUsage
  protection : Option Protection
deriving DecidableEq, Repr, Inhabited

/-- An interrupt of a peripheral, with the number under which it is known to the processor. -/
structure Interrupt where
  name : String
  description : Option String
  /-- The number of the interrupt. -/
  value : Int
deriving DecidableEq, Repr, Inhabited

/-- A peripheral, with the blocks of addresses that it takes and the registers and clusters in
it. -/
structure Peripheral where
  name : String
  /-- The name of the peripheral that this one derives from. -/
  derivedFrom : Option String
  version : Option String
  description : Option String
  groupName : Option String
  prependToName : Option String
  appendToName : Option String
  /-- The first address; only a peripheral that derives from another may have none. -/
  baseAddress : Option Word
  properties : Properties
  dimension : Option Dimension
  addressBlocks : List AddressBlock
  interrupts : List Interrupt
  children : List Item
deriving Repr, Inhabited

/-- A device: a chip with its peripherals.  Its properties are passed on to every node inside it. -/
structure Device where
  name : String
  vendor : Option String
  version : Option String
  description : Option String
  /-- The number of bits that an address selects. -/
  addressUnitBits : Option Word
  /-- The width of the bus in bits. -/
  width : Option Word
  properties : Properties
  peripherals : List Peripheral
deriving Repr, Inhabited

end ChipMap.Description
