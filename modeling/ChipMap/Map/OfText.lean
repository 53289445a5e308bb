import ChipMap.Description.OfMarkup
import ChipMap.Inheritance.Resolver
import ChipMap.Json.Value
import ChipMap.Map.OfDescription
import ChipMap.Map.Overlap

/-!
# The map of a document

A text is read as a description, the description is resolved, and the resolved description is laid
out as a map.  The first fault of the first step that fails is reported; no step looks at what an
earlier one has refused.

A map is checked for overlaps once it is there.  What is found are warnings, and no warning keeps a
text from having a map.

* `ChipFault` — the faults of all steps, with `ChipFault.message`.
* `Checked` — a map with its warnings, with `Checked.record` as its structured text.
* `resolvedOfText` — the resolved description that a text holds.
* `ofText` — the checked map of a text.

### What is load-bearing

The structured text of a map has the keys of its nodes in a fixed order, and every key is there:
what a node does not have is written as null.
-/

namespace ChipMap.Map

open Json (Value)
open Description (WriteConstraint)

/-! ### Maps as structured text -/

/-- The record of a text that may be absent. -/
private def textRecord (s : Option String) : Value := .ofOption .text s

/-- The record of a word is its number without a sign. -/
private def wordRecord (w : Word) : Value := .nat w.toNat

def spanRecord (s : Span) : Value :=
  .object [("start", .nat s.start), ("end", .nat s.stop)]

/-- The record of a vector.  Its two keys stand under that of the node which is an array. -/
def Vector.record (v : Vector) : Value :=
  .object [("count", wordRecord v.count), ("stride", wordRecord v.stride)]

/-- The record of a constraint holds its kind as the only key, with what the kind needs under it. -/
def constraintRecord : WriteConstraint → Value
  | .asRead required => .object [("writeAsRead", .bool required)]
  | .enumerated required => .object [("useEnumeratedValues", .bool required)]
  | .within minimum maximum =>
    .object
      [("range", .object [("minimum", wordRecord minimum), ("maximum", wordRecord maximum)])]

def EnumCase.record (c : EnumCase) : Value :=
  .object
    [("name", .text c.name), ("description", textRecord c.description),
      ("value", .ofOption wordRecord c.value), ("mask", wordRecord c.mask),
      ("is_default", .bool c.isDefault)]

def Field.record (f : Field) : Value :=
  .object
    [("name", .text f.name), ("description", textRecord f.description),
      ("bits", spanRecord f.bits), ("access", .text f.access.label),
      ("modified_write_values", .text f.writeEffect.label),
      ("write_constraint", .ofOption constraintRecord f.writeConstraint),
      ("read_action", .ofOption (fun e => .text e.label) f.readEffect),
      ("enumerated_values", .ofList EnumCase.record f.cases)]

def Register.record (r : Register) : Value :=
  .object
    [("name", .text r.name), ("display_name", textRecord r.displayName),
      ("description", textRecord r.description), ("address_offset", wordRecord r.addressOffset),
      ("size", .nat r.size), ("access", .text r.access.label),
      ("protection", .ofOption (fun p => .text p.label) r.protection),
      ("reset_value", wordRecord r.resetValue), ("reset_mask", wordRecord r.resetMask),
      ("modified_write_values", .text r.writeEffect.label),
      ("write_constraint", .ofOption constraintRecord r.writeConstraint),
      ("read_action", .ofOption (fun e => .text e.label) r.readEffect),
      ("vector", .ofOption Vector.record r.vector), ("fields", .ofList Field.record r.fields)]

mutual

/-- The record of a cluster, with the records of what is inside it.  It follows the tree of
clusters. -/
def Cluster.record : Cluster → Value
  | ⟨name, description, addressOffset, vector, registers, clusters⟩ =>
    .object
      [("name", .text name), ("description", textRecord description),
        ("address_offset", wordRecord addressOffset), ("vector", .ofOption Vector.record vector),
        ("registers", .ofList Register.record registers),
        ("clusters", .list (clusterRecords clusters))]

def clusterRecords : List Cluster → List Value
  | [] => []
  | c :: rest => c.record :: clusterRecords rest

end

def Interrupt.record (i : Interrupt) : Value :=
  .object
    [("name", .text i.name), ("description", textRecord i.description), ("value", .integer i.value)]

def Peripheral.record (p : Peripheral) : Value :=
  .object
    [("name", .text p.name), ("description", textRecord p.description),
      ("group_name", textRecord p.groupName), ("base_address", wordRecord p.baseAddress),
      ("address_range", spanRecord p.addressRange),
      ("interrupts", .ofList Interrupt.record p.interrupts),
      ("registers", .ofList Register.record p.registers),
      ("clusters", .ofList Cluster.record p.clusters)]

/-- The record of a device. -/
def Device.record (d : Device) : Value :=
  .object
    [("name", .text d.name), ("vendor", textRecord d.vendor), ("version", textRecord d.version),
      ("description", textRecord d.description), ("width", .nat d.width),
      ("address_unit_bits", .nat d.addressUnitBits),
      ("peripherals", .ofList Peripheral.record d.peripherals)]

/-- The record of a warning holds its kind as the only key. -/
def Warning.record : Warning → Value
  | registers peripheral o =>
    .object
      [("register-overlap", .object
        [("peripheral", .text peripheral), ("first", .text o.first), ("second", .text o.second),
          ("range", spanRecord o.shared)])]
  | peripherals o =>
    .object
      [("peripheral-overlap", .object
        [("first", .text o.first), ("second", .text o.second), ("range", spanRecord o.shared)])]

/-- A map with the warnings that were found in it.  The warnings are made from the map alone. -/
structure Checked where
  /-- The map. -/
  device : Device
  /-- The warnings. -/
  warnings : List Warning
deriving Repr, Inhabited

/-- A map checked for overlaps.  The check never fails. -/
def Checked.ofDevice (d : Device) : Checked := ⟨d, Map.warnings d⟩

/-- The record of a checked map. -/
def Checked.record (c : Checked) : Value :=
  .object
    [("device", c.device.record), ("warnings", .ofList Warning.record c.warnings)]

/-! ### From a text to a map -/

/-- Why a text has no map.  There is one kind of fault for each step on the way. -/
inductive ChipFault where
  /-- The text holds no description. -/
  | document (fault : Description.DocumentFault)
  /-- The description cannot be resolved. -/
  | reference (fault : Inheritance.ReferenceFault)
  /-- The resolved description has no map. -/
  | layout (fault : MapFault)
deriving DecidableEq, Repr, Inhabited

/-- The wording is that of the step that failed. -/
def ChipFault.message : ChipFault → String
  | document fault => fault.message
  | reference fault => fault.message
  | layout fault => fault.message

/-- The resolved description that a text holds: nothing in it derives from anything else any
more. -/
def resolvedOfText (text : String) : Except ChipFault Description.Device := do
  let described ← (Description.ofText text).mapError .document
  (Inheritance.resolve described).mapError .reference

/-- The map of a text, checked for overlaps.  Whatever a run writes is made from it. -/
def ofText (text : String) : Except ChipFault Checked := do
  let resolved ← resolvedOfText text
  let device ← (ofDescription resolved).mapError .layout
  return .ofDevice device

end ChipMap.Map
