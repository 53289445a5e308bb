import ChipMap.Description.Basic

/-!
# Register maps

The map of a chip says of every peripheral, register and field where it is and what it does.  It is
made from a description once no node derives from another: every attribute has its effective value,
arrays are expanded or are vectors, names are unique identifiers, and nodes are in a canonical
order.

* Peripherals, registers and clusters are in the order of their names.
* Fields are in the order of their lowest bits, and of their names where these agree.
* Interrupts and cases are in the order of their values, and of their names where these agree.

## Main definitions

* `Vector` — an array of equal elements.
* `EnumCase`, `Field`, `Register`, `Cluster`, `Interrupt`, `Peripheral`, `Device` — the nodes, from
  the inside out.

### What is load-bearing

A map has its own types and shares none of its nodes with a description.  An attribute that has a
default is no option here, so no reader of a map asks for a default again.  The invariants above are
not fields of these types: they are theorems about the maps that texts have.
-/

namespace ChipMap.Map

open Description (WriteConstraint)

/-- An array of equal elements at equal distances.  An array may have no element. -/
structure Vector where
  /-- How many elements there are. -/
  count : Word
  /-- The distance of neighbours in bytes. -/
  stride : Word
deriving DecidableEq, Repr, Inhabited

/-- A named value of a field.  A case with open bits has a smaller mask than its field. -/
structure EnumCase where
  name : String
  description : Option String
  /-- The value; the default case may have none. -/
  value : Option Word
  /-- The bits of the field that take part when a value is compared with the case. -/
  mask : Word
  /-- Whether the case stands for all values that no other case names. -/
  isDefault : Bool
deriving DecidableEq, Repr, Inhabited

/-- A field of a register, with the attributes that it has or has taken from the register. -/
structure Field where
  name : String
  description : Option String
  /-- The bits of the field, half open. -/
  bits : Span
  access : Access
  writeEffect : WriteEffect
  writeConstraint : Option WriteConstraint
  readEffect : Option ReadEffect
  cases : List EnumCase
deriving DecidableEq, Repr, Inhabited

def Field.width (f : Field) : Nat := f.bits.width

/-- A register, or an array of registers that share everything but their positions. -/
structure Register where
  name : String
  displayName : Option String
  description : Option String
  /-- The distance from the start of the enclosing node in bytes. -/
  addressOffset : Word
  /-- The width in bits, from 1 to 64. -/
  size : Nat
  access : Access
  protection : Option Protection
  resetValue : Word
  resetMask : Word
  writeEffect : WriteEffect
  writeConstraint : Option WriteConstraint
  readEffect : Option ReadEffect
  /-- The array that the register is, if it is one. -/
  vector : Option Vector
  fields : List Field
deriving DecidableEq, Repr, Inhabited

/-- The number of bytes of one element of a register.  A register of a few bits has a whole byte. -/
def Register.byteSize (r : Register) : Nat := (r.size + 7) / 8

/-- A cluster of registers and clusters, or an array of equal clusters. -/
structure Cluster where
  name : String
  description : Option String
  /-- The distance from the start of the enclosing node in bytes. -/
  addressOffset : Word
  /-- The array that the cluster is, if it is one. -/
  vector : Option Vector
  registers : List Register
  clusters : List Cluster
deriving Repr, Inhabited

/-- An interrupt, as the peripheral that raises it lists it. -/
structure Interrupt where
  name : String
  description : Option String
  /-- The number of the interrupt, a signed integer of 32 bits. -/
  value : Int
deriving DecidableEq, Repr, Inhabited

/-- A peripheral at its address, with everything in it at distances from there. -/
structure Peripheral where
  name : String
  description : Option String
  groupName : Option String
  /-- The first address. -/
  baseAddress : Word
  /-- The bytes that the peripheral occupies, relative to its first address. -/
  addressRange : Span
  interrupts : List Interrupt
  registers : List Register
  clusters : List Cluster
deriving Repr, Inhabited

/-- A device.  It lists the peripherals of all arrays one by one. -/
structure Device where
  name : String
  vendor : Option String
  version : Option String
  description : Option String
  /-- The width of the bus in bits. -/
  width : Nat
  /-- The number of bits that an address selects. -/
  addressUnitBits : Nat
  peripherals : List Peripheral
deriving Repr, Inhabited

end ChipMap.Map
