import ChipMap.Map.Fault
import ChipMap.Map.Overlap
import ChipMap.Map.Placement
import ChipMap.Word.Bits

/-!
# The map of a description

A description in which no node derives from another has a map.  Properties pass from the device to
its peripherals, from there to clusters and registers, and from a register to its fields; what no
node gives has a default.

* `buildCases`, `buildFields` — the fields of a register and their named values.
* `buildRegister`, `buildItems`, `arrange` — the registers and clusters of a node.
* `buildInterrupts`, `buildPeripheral` — peripherals.
* `ofDescription` — the map of a device.

### Design decisions

**Build, name, sort.**  Every list of nodes is made in three steps.  The nodes are built one by one,
with the identifiers of their own names; the names are claimed in the order of names and positions;
and the nodes are sorted into their canonical order.  The order of a document enters none of them,
except where two nodes want one name at one position.

**Elements share their contents.**  The fields of a register and the contents of a cluster are built
once and are those of every element of an array.

### What is load-bearing

Fields are compared with their register before a field is returned (`buildFieldElement`).  A
register has at most 64 bits, so a field that passes was not clamped, and every bound about fields
is one in the natural numbers.
-/

namespace ChipMap.Map

open Description (ItemKind Properties Item ClusterInfo WriteConstraint)

/-- The identifier of a name, which the node at `path` needs. -/
def identifier (path name : String) : Except MapFault String :=
  match Name.identifier? name with
  | some id => .ok id
  | none => .error (.unrepresentableName path name)

/-- What the node at `path` has to have. -/
def given {α : Type} (path element : String) : Option α → Except MapFault α
  | some a => .ok a
  | none => .error (.missing path element)

/-! ### Fields -/

/-- The value of a case and the bits that take part, when the field has `width` bits.  A case
without a value has none of the bits. -/
def casePattern (path : String) (c : Description.EnumeratedCase) (width : Nat) :
    Except MapFault (Option Word × Word) :=
  let fieldMask := Bits.mask ⟨0, width⟩
  match c.value with
  | none => .ok (none, 0)
  | some p =>
    if p.value &&& ~~~fieldMask ≠ 0 then .error (.valueOutOfRange path c.name p.value width)
    else .ok (some p.value, p.mask &&& fieldMask)

/-- The case of a field with `width` bits. -/
def buildCase (path : String) (width : Nat) (c : Description.EnumeratedCase) :
    Except MapFault EnumCase := do
  let (value, mask) ← casePattern path c width
  let name ← identifier path c.name
  return { name, description := c.description, value, mask, isDefault := c.isDefault }

/-- The place of a value in the order of cases: no value comes before all values. -/
def valueRank : Option Word → Nat
  | none => 0
  | some v => v.toNat + 1

/-- The canonical order of cases: the default last, then by value, then by name. -/
def sortCases (cases : List EnumCase) : List EnumCase :=
  Name.sortOn (Name.lexLe (Name.lexLe Name.textLe))
    (fun c => (c.isDefault, valueRank c.value, c.name)) cases

/-- The cases of a field with `width` bits, over all its sets.  Sets for reading and for writing
often repeat a case, so of equal cases that are neighbours in order one is kept. -/
def buildCases (path : String) (width : Nat) (f : Description.Field) :
    Except MapFault (List EnumCase) := do
  let cases ← (f.enumeratedSets.flatMap (·.cases)).mapM (buildCase path width)
  -- Names are claimed by name and value, so the order of a document does not matter.
  let unique :=
    Name.renameInOrder (Name.lexLe Name.natLe) (fun c => (c.name, valueRank c.value)) (·.name)
      (fun c name => { c with name }) (sortCases cases).eraseReps
  return sortCases unique

/-- The attributes of a register that a field without them has. -/
structure FieldDefaults where
  access : Access
  writeEffect : WriteEffect
  writeConstraint : Option WriteConstraint
  readEffect : Option ReadEffect
deriving DecidableEq, Repr, Inhabited

/-- The number of bits from the lowest to the highest.  It is a natural number: kept in a word of 64
bits, the width of the range `[2^64-1:0]`, which is 2^64, would overflow, and this count does not.
A field of that width is refused like any other that ends beyond its register. -/
def bitCount (r : Description.BitRange) : Nat := r.msb.toNat + 1 - r.lsb.toNat

/-- One element of a field: it may not end beyond its register. -/
def buildFieldElement (register path : String) (size width : Nat) (defaults : FieldDefaults)
    (cases : List EnumCase) (f : Description.Field) (element : String × Nat) :
    Except MapFault Field := do
  let bits : Span := ⟨element.2, clampedAdd element.2 width⟩
  if size < bits.stop then throw (.fieldOutOfBounds register element.1 bits size)
  let name ← identifier path element.1
  return {
    name
    description := f.description
    bits
    access := f.access.getD defaults.access
    writeEffect := f.writeEffect.getD defaults.writeEffect
    writeConstraint := f.writeConstraint.or defaults.writeConstraint
    readEffect := f.readEffect.or defaults.readEffect
    cases }

/-- The fields that a field stands for, in a register of `size` bits at the path `register`.  The
cases are those of every element, and they see at most 64 bits of the field. -/
def buildField (register : String) (size : Nat) (defaults : FieldDefaults)
    (f : Description.Field) : Except MapFault (List Field) := do
  let path := register ++ "." ++ f.name
  let range ← given path "bitRange" f.bitRange
  let width := bitCount range
  let cases ← buildCases path (min width 64) f
  (instances f.name range.lsb.toNat f.dimension).mapM
    (buildFieldElement register path size width defaults cases f)

/-- The bits of a field under its name. -/
def Field.span (f : Field) : NamedSpan := ⟨f.name, f.bits⟩

/-- The canonical order of fields: by lowest bit, then by name. -/
def sortFields (fields : List Field) : List Field :=
  Name.sortOn (Name.lexLe Name.textLe) (fun f => (f.bits.start, f.name)) fields

/-- Fields in order, none of which shares a bit with another.  The first overlap is the fault that
is reported. -/
def checkFields (register : String) (fields : List Field) : Except MapFault (List Field) :=
  match overlapsAfter none (fields.map Field.span) with
  | [] => .ok fields
  | o :: _ => .error (.fieldOverlap register o.first o.second o.shared)

/-- The fields of a register of `size` bits. -/
def buildFields (register : String) (size : Nat) (defaults : FieldDefaults)
    (fields : List Description.Field) : Except MapFault (List Field) := do
  let built ← fields.mapM (buildField register size defaults)
  let unique :=
    Name.renameInOrder (Name.lexLe Name.natLe) (fun f => (f.name, f.bits.start)) (·.name)
      (fun f name => { f with name }) built.flatten
  checkFields register (sortFields unique)

/-! ### Registers and clusters -/

/-- The size of a register whose description gives none. -/
def defaultSize : Word := 32

/-- What a peripheral puts around the name of each of its registers.  Clusters have their names
without it. -/
structure Affix where
  /-- What stands before the name. -/
  before : String
  /-- What stands behind the name. -/
  behind : String
deriving DecidableEq, Repr, Inhabited

/-- The name of a register with the affixes of its peripheral. -/
def Affix.apply (a : Affix) (name : String) : String := a.before ++ name ++ a.behind

/-- The registers that a register stands for.  `outer` are the properties of the nodes around it. -/
def buildRegister (parent : String) (outer : Properties) (affix : Affix)
    (r : Description.Register) : Except MapFault (List Register) := do
  let path := parent ++ "." ++ r.name
  let offset ← given path "addressOffset" r.addressOffset
  let properties := r.properties.orElse outer
  let size := properties.size.getD defaultSize
  if size.toNat < 1 ∨ 64 < size.toNat then throw (.registerSize path size)
  let access := properties.access.getD .readWrite
  let writeEffect := r.writeEffect.getD .modify
  let defaults : FieldDefaults :=
    { access, writeEffect, writeConstraint := r.writeConstraint, readEffect := r.readEffect }
  -- The fields are those of every element, so they are built once.
  let fields ← buildFields path size.toNat defaults r.fields
  (placements r.name offset r.dimension).mapM fun p => do
    let name ← identifier path (affix.apply p.name)
    return {
      name
      displayName := r.displayName
      description := r.description
      addressOffset := p.offset
      size := size.toNat
      access
      protection := properties.protection
      resetValue := properties.resetValue.getD 0
      resetMask := properties.resetMask.getD (Bits.mask ⟨0, size.toNat⟩)
      writeEffect
      writeConstraint := r.writeConstraint
      readEffect := r.readEffect
      vector := p.vector
      fields }

/-- A register or a cluster of a map. -/
inductive Entry where
  /-- A register. -/
  | register (r : Register)
  /-- A cluster. -/
  | cluster (c : Cluster)
deriving Repr, Inhabited

namespace Entry

def name : Entry → String
  | register r => r.name
  | cluster c => c.name

def offset : Entry → Nat
  | register r => r.addressOffset.toNat
  | cluster c => c.addressOffset.toNat

/-- A register or cluster with another name.  What is in it stays. -/
def rename : Entry → String → Entry
  | register r, name => register { r with name }
  | cluster c, name => cluster { c with name }

/-- The register that an entry is, if it is one. -/
def register? : Entry → Option Register
  | register r => some r
  | cluster _ => none

/-- The cluster that an entry is, if it is one. -/
def cluster? : Entry → Option Cluster
  | register _ => none
  | cluster c => some c

end Entry

/-- The registers and the clusters of one node. -/
structure Contents where
  registers : List Register
  clusters : List Cluster
deriving Repr, Inhabited

/-- Registers and clusters in canonical order.  They share one set of names, which are claimed in
the order of names and positions, registers before clusters. -/
def arrange (entries : List Entry) : Contents :=
  let registersFirst :=
    (entries.filterMap Entry.register?).map .register ++
      (entries.filterMap Entry.cluster?).map .cluster
  let unique :=
    Name.renameInOrder (Name.lexLe Name.natLe) (fun e => (e.name, e.offset)) Entry.name Entry.rename
      registersFirst
  { registers := Name.sortOn Name.textLe (·.name) (unique.filterMap Entry.register?)
    clusters := Name.sortOn Name.textLe (·.name) (unique.filterMap Entry.cluster?) }

/-- The clusters that a cluster stands for, all with the same contents. -/
def buildCluster (path : String) (info : ClusterInfo) (offset : Word) (contents : Contents) :
    Except MapFault (List Cluster) :=
  (placements info.name offset info.dimension).mapM fun p => do
    let name ← identifier path p.name
    return {
      name
      description := info.description
      addressOffset := p.offset
      vector := p.vector
      registers := contents.registers
      clusters := contents.clusters }

mutual

/-- The registers or clusters that a child of a node stands for. -/
def buildItem (parent : String) (outer : Properties) (affix : Affix) :
    Item → Except MapFault (List Entry)
  | .register r => do
    let built ← buildRegister parent outer affix r
    return built.map .register
  | .cluster info children => do
    let path := parent ++ "." ++ info.name
    let offset ← given path "addressOffset" info.addressOffset
    let entries ← buildItems path (info.properties.orElse outer) affix children
    let built ← buildCluster path info offset (arrange entries)
    return built.map .cluster

/-- The registers and clusters that the children of a node stand for. -/
def buildItems (parent : String) (outer : Properties) (affix : Affix) :
    List Item → Except MapFault (List Entry)
  | [] => return []
  | item :: rest => do
    let first ← buildItem parent outer affix item
    return first ++ (← buildItems parent outer affix rest)

end

/-! ### Peripherals -/

/-- The interrupt of a peripheral. -/
def buildInterrupt (peripheral : String) (i : Description.Interrupt) :
    Except MapFault Interrupt := do
  if !isInt32 i.value then throw (.interruptOutOfRange peripheral i.name i.value)
  let name ← identifier peripheral i.name
  return { name, description := i.description, value := i.value }

def intLe (a b : Int) : Bool := decide (a ≤ b)

/-- The canonical order of interrupts: by value, then by name. -/
def sortInterrupts (interrupts : List Interrupt) : List Interrupt :=
  Name.sortOn (Name.lexLe Name.textLe) (fun i => (i.value, i.name)) interrupts

/-- The interrupts of a peripheral.  Of equal interrupts that are neighbours in order one is
kept. -/
def buildInterrupts (p : Description.Peripheral) : Except MapFault (List Interrupt) := do
  let built ← p.interrupts.mapM (buildInterrupt p.name)
  let unique :=
    Name.renameInOrder (Name.lexLe intLe) (fun i => (i.name, i.value)) (·.name)
      (fun i name => { i with name }) (sortInterrupts built).eraseReps
  return sortInterrupts unique

/-- The bytes that a peripheral occupies: those from its first to its last address block, or else
those of its registers and clusters. -/
def occupied (blocks : List Description.AddressBlock) (contents : Contents) : Span :=
  if blocks.isEmpty then extent contents.registers contents.clusters
  else
    hullOf (blocks.map fun b => ⟨b.offset.toNat, clampedAdd b.offset.toNat b.size.toNat⟩)

/-- The peripherals that a peripheral stands for, all with the same contents. -/
def buildPeripheral (outer : Properties) (p : Description.Peripheral) :
    Except MapFault (List Peripheral) := do
  let base ← given p.name "baseAddress" p.baseAddress
  let affix : Affix := ⟨p.prependToName.getD "", p.appendToName.getD ""⟩
  let entries ← buildItems p.name (p.properties.orElse outer) affix p.children
  let contents := arrange entries
  let interrupts ← buildInterrupts p
  (instances p.name base.toNat p.dimension).mapM fun (name, position) => do
    let name ← identifier p.name name
    return {
      name
      description := p.description
      groupName := p.groupName
      baseAddress := BitVec.ofNat 64 position
      addressRange := occupied p.addressBlocks contents
      interrupts
      registers := contents.registers
      clusters := contents.clusters }

/-! ### Devices -/

/-- A number stopped at the greatest unsigned integer of 32 bits. -/
def narrow (w : Word) : Nat := min w.toNat 0xFFFFFFFF

/-- The width of a bus whose description gives none. -/
def defaultWidth : Word := 32

/-- The number of bits that an address selects when the description gives none. -/
def defaultUnitBits : Word := 8

/-- The map of a description in which no node derives from another. -/
def ofDescription (d : Description.Device) : Except MapFault Device := do
  let name ← identifier "device" d.name
  let built ← d.peripherals.mapM (buildPeripheral d.properties)
  let unique :=
    Name.renameInOrder (Name.lexLe Name.natLe) (fun p => (p.name, p.baseAddress.toNat)) (·.name)
      (fun p name => { p with name }) built.flatten
  return {
    name
    vendor := d.vendor
    version := d.version
    description := d.description
    width := narrow (d.width.getD defaultWidth)
    addressUnitBits := narrow (d.addressUnitBits.getD defaultUnitBits)
    peripherals := Name.sortOn Name.textLe (·.name) unique }

end ChipMap.Map
