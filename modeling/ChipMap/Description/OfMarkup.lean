import ChipMap.Description.Scope
import ChipMap.Markup.Document

/-!
# The description that a document holds

A node of a description is an element, its attributes are child elements, and unknown elements are
passed over.  The first fault ends the reading, so the order in which the attributes are read
decides which of two faults is reported: what stands inside a node is mostly read before the node's
own name.

Nothing is resolved here.  A node that derives from another may leave out its position, which it
will take from there; any other node has to give it.

* `readProperties`, `readDimension`, `readWriteConstraint`, `readBitRange` — groups of attributes.
* `readField`, `readRegister`, `readItems`, `readPeripheral`, `readDevice` — nodes.
* `ofElement` — the description that the root element holds.
* `ofText` — the description that a text holds.

### What is load-bearing

Registers and clusters are read in one pass over the nodes of their parent (`readItems`), which is
the only recursion here and follows the tree of the document.  They are numbered together, whatever
else stands between them.

A range of bits has three written forms.  They are tried in order, and the first form that has begun
is the one that counts: where a lowest bit is given, an offset is not looked at any more.
-/

namespace ChipMap.Description

/-- The properties that a node passes on.  Each of them may be absent. -/
def readProperties (s : Scope) : Except DocumentFault Properties := do
  let size ← s.word? "size"
  let access ← s.value? "access" Access.table.read
  let protection ← s.value? "protection" Protection.table.read
  let resetValue ← s.word? "resetValue"
  let resetMask ← s.word? "resetMask"
  return { size, access, protection, resetValue, resetMask }

/-- The array that a node stands for.  A list of indices has one entry for each element; the
distance of neighbours has to be given even for an array of one. -/
def readDimension (s : Scope) : Except DocumentFault (Option Dimension) := do
  match ← s.word? "dim" with
  | none => return none
  | some count =>
    let increment ← s.requiredWord "dimIncrement"
    let indices ← s.value? "dimIndex" Numeral.readIndices
    match indices with
    | some texts =>
      if texts.length ≠ count.toNat then
        throw (.indexCount (s.locationOf "dimIndex") count texts.length)
    | none => pure ()
    return some { count, increment, indices, name := s.text? "dimName" }

/-- Which values may be written.  Of several constraints the first one counts, in the order in which
they are tried here. -/
def readWriteConstraint (s : Scope) : Except DocumentFault (Option WriteConstraint) := do
  match s.element.child? "writeConstraint" with
  | none => return none
  | some element =>
    let constraint := s.inner element (.only "writeConstraint")
    if let some required ← constraint.value? "writeAsRead" Numeral.readBoolean then
      return some (.asRead required)
    if let some required ← constraint.value? "useEnumeratedValues" Numeral.readBoolean then
      return some (.enumerated required)
    match constraint.element.child? "range" with
    | none => return none
    | some element =>
      let range := constraint.inner element (.only "range")
      let minimum ← range.requiredWord "minimum"
      let maximum ← range.requiredWord "maximum"
      return some (.within minimum maximum)

/-- The highest bit of `width` bits from `offset` on, if there is a bit and it is below the greatest
word. -/
def highestBit? (offset width : Word) : Option Word :=
  if width.toNat = 0 ∨ Word.count ≤ offset.toNat + width.toNat then none
  else some (BitVec.ofNat 64 (offset.toNat + width.toNat - 1))

/-- A bit range is written with its higher bit first. -/
def renderBitRange (msb lsb : Word) : String :=
  "[" ++ toString msb.toNat ++ ":" ++ toString lsb.toNat ++ "]"

/-- The bit range with the given ends, which the child `name` gave; the higher end may not be below
the lower one. -/
def checkBitRange (s : Scope) (name : String) (msb lsb : Word) : Except DocumentFault BitRange :=
  if msb.toNat < lsb.toNat then s.invalid name ⟨.bitRange, renderBitRange msb lsb⟩
  else .ok { lsb, msb }

/-- The bits of a field: a range, or else the lowest and the highest bit, or else an offset with a
width.  An absent width is one bit.  Of the lowest and the highest bit neither may be given
alone. -/
def readBitRange (s : Scope) : Except DocumentFault (Option BitRange) := do
  if let some (msb, lsb) ← s.value? "bitRange" Numeral.readBitRange then
    return some (← checkBitRange s "bitRange" msb lsb)
  if let some lsb ← s.word? "lsb" then
    let msb ← s.requiredWord "msb"
    return some (← checkBitRange s "msb" msb lsb)
  if (s.element.child? "msb").isSome then
    s.missing "lsb"
  else
    match ← s.word? "bitOffset" with
    | none => return none
    | some offset =>
      let width := (← s.word? "bitWidth").getD 1
      match highestBit? offset width with
      | some msb => return some (← checkBitRange s "bitWidth" msb offset)
      | none => s.invalid "bitWidth" ⟨.bitWidth, toString width.toNat⟩

/-- A named value.  Only a default case may have no value. -/
def readEnumeratedCase (s : Scope) : Except DocumentFault EnumeratedCase := do
  let isDefault := (← s.value? "isDefault" Numeral.readBoolean).getD false
  let value ← s.value? "value" Numeral.readPattern
  if value.isNone && !isDefault then s.missing "value"
  else
    let name ← s.required "name"
    return { name, description := s.prose? "description", value, isDefault }

/-- A set of named values. -/
def readEnumeratedSet (s : Scope) : Except DocumentFault EnumeratedSet := do
  let cases ← s.readEach "values" readEnumeratedCase (s.element.named "enumeratedValue")
  let usage ← s.value? "usage" Usage.table.read
  return { name := s.text? "name", usage, cases }

/-- A field.  Its bits have to be given unless it derives from another field. -/
def readField (s : Scope) : Except DocumentFault Field := do
  let derivedFrom := s.attribute? "derivedFrom"
  let bitRange ← readBitRange s
  if bitRange.isNone && derivedFrom.isNone then s.missing "bitOffset"
  else
    let enumeratedSets ←
      s.readEach "enumeratedValues" readEnumeratedSet (s.element.named "enumeratedValues")
    let name ← s.required "name"
    let access ← s.value? "access" Access.table.read
    let writeEffect ← s.value? "modifiedWriteValues" WriteEffect.table.read
    let writeConstraint ← readWriteConstraint s
    let readEffect ← s.value? "readAction" ReadEffect.table.read
    let dimension ← readDimension s
    return {
      name, derivedFrom, description := s.prose? "description", bitRange, access, writeEffect,
      writeConstraint, readEffect, dimension, enumeratedSets }

/-- The elements of a name that the first child of another name holds. -/
def containedElements (e : Markup.Element) (container name : String) : List Markup.Element :=
  match e.child? container with
  | some inner => inner.named name
  | none => []

/-- A register.  Its offset has to be given unless it derives from another register. -/
def readRegister (s : Scope) : Except DocumentFault Register := do
  let derivedFrom := s.attribute? "derivedFrom"
  let addressOffset ← s.derivableWord derivedFrom "addressOffset"
  let fields ← s.readEach "fields" readField (containedElements s.element "fields" "field")
  let name ← s.required "name"
  let properties ← readProperties s
  let dimension ← readDimension s
  let writeEffect ← s.value? "modifiedWriteValues" WriteEffect.table.read
  let writeConstraint ← readWriteConstraint s
  let readEffect ← s.value? "readAction" ReadEffect.table.read
  return {
    name, derivedFrom, displayName := s.text? "displayName", description := s.prose? "description",
    alternateGroup := s.text? "alternateGroup", alternateRegister := s.text? "alternateRegister",
    addressOffset, properties, dimension, writeEffect, writeConstraint, readEffect, fields }

/-- What is said of a cluster besides its children.  Its offset has to be given unless it derives
from another cluster. -/
def readClusterInfo (s : Scope) : Except DocumentFault ClusterInfo := do
  let derivedFrom := s.attribute? "derivedFrom"
  let addressOffset ← s.derivableWord derivedFrom "addressOffset"
  let name ← s.required "name"
  let properties ← readProperties s
  let dimension ← readDimension s
  return {
    name, derivedFrom, description := s.prose? "description",
    headerStructName := s.text? "headerStructName", addressOffset, properties, dimension }

mutual

/-- The register or the cluster that a node is, if it is one.  It has the number `index` among the
registers and clusters of its parent, whose path is `path`.  Any other node is passed over and has
no number. -/
def readItem (path : List Step) (index : Nat) : Markup.Node → Except DocumentFault (Option Item)
  | .element tag nodes => do
    let here := path ++ [.nth "registers" index]
    let s : Scope := ⟨⟨tag, nodes⟩, here⟩
    if tag.name = "register" then
      return some (.register (← readRegister s))
    else if tag.name = "cluster" then
      let info ← readClusterInfo s
      let children ← readItems here 0 nodes
      return some (.cluster info children)
    else return none
  | .text _ => return none
  | .aside => return none

/-- The registers and clusters among a list of nodes, in order.  They are numbered from `index` on,
registers and clusters together. -/
def readItems (path : List Step) (index : Nat) :
    List Markup.Node → Except DocumentFault (List Item)
  | [] => return []
  | node :: rest => do
    match ← readItem path index node with
    | some item => return item :: (← readItems path (index + 1) rest)
    | none => readItems path index rest

end

/-- A part of the addresses of a peripheral. -/
def readAddressBlock (s : Scope) : Except DocumentFault AddressBlock := do
  let offset ← s.requiredWord "offset"
  let size ← s.requiredWord "size"
  let usage ← s.value? "usage" BlockUsage.table.read
  let protection ← s.value? "protection" Protection.table.read
  return { offset, size, usage, protection }

def readInterrupt (s : Scope) : Except DocumentFault Interrupt := do
  let name ← s.required "name"
  let value ← s.requiredValue "value" Numeral.readInteger
  return { name, description := s.prose? "description", value }

/-- A peripheral.  Its first address has to be given unless it derives from another peripheral. -/
def readPeripheral (s : Scope) : Except DocumentFault Peripheral := do
  let derivedFrom := s.attribute? "derivedFrom"
  let baseAddress ← s.derivableWord derivedFrom "baseAddress"
  let addressBlocks ← s.readEach "addressBlock" readAddressBlock (s.element.named "addressBlock")
  let interrupts ← s.readEach "interrupt" readInterrupt (s.element.named "interrupt")
  let children ← readItems s.path 0 (((s.element.child? "registers").map (·.nodes)).getD [])
  let name ← s.required "name"
  let properties ← readProperties s
  let dimension ← readDimension s
  return {
    name, derivedFrom, version := s.text? "version", description := s.prose? "description",
    groupName := s.text? "groupName", prependToName := s.text? "prependToName",
    appendToName := s.text? "appendToName", baseAddress, properties, dimension, addressBlocks,
    interrupts, children }

/-- A device.  Its peripherals are read first, so a fault in one of them is reported before one of
the device. -/
def readDevice (s : Scope) : Except DocumentFault Device := do
  let peripherals ←
    s.readEach "peripherals" readPeripheral
      (containedElements s.element "peripherals" "peripheral")
  let name ← s.required "name"
  let addressUnitBits ← s.word? "addressUnitBits"
  let width ← s.word? "width"
  let properties ← readProperties s
  return {
    name, vendor := s.text? "vendor", version := s.text? "version",
    description := s.prose? "description", addressUnitBits, width, properties, peripherals }

/-- The description that the root element of a document holds.  The root has to be a device. -/
def ofElement (root : Markup.Element) : Except DocumentFault Device :=
  if root.name = "device" then readDevice ⟨root, [.only "device"]⟩
  else .error (.unexpectedRoot root.name)

/-- The description that a text holds.  A text that is no well-formed document holds none. -/
def ofText (text : String) : Except DocumentFault Device :=
  match Markup.read? text with
  | some root => ofElement root
  | none => .error .notWellFormed

end ChipMap.Description
