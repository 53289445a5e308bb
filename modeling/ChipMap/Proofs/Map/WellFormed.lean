import ChipMap.Map.OfText
import ChipMap.Proofs.Name.Identifier

/-!
# Well-formed maps

What a map promises to those who read it, at every level: names are identifiers that stay apart in
every case, nodes are in their canonical order, and the bits of fields and the values of cases are
where they have to be.

* `Field.WellFormed`, `Register.WellFormed` — one register with its fields and their cases.
* `LevelWellFormed` — the registers and clusters of one node, and those of the clusters inside.
* `Peripheral.WellFormed`, `Device.WellFormed` — the whole map.

### What is load-bearing

An order is strict here: neighbours differ in what they are sorted by.  The sorts themselves promise
less, and the rest comes from names that are apart.

Addresses do not appear.  Registers may overlap, and an array may reach beyond the address space; a
map with such a register is well formed, and its overlaps are warnings.
-/

namespace ChipMap.Map

open Name (IsIdentifier Apart)

/-- Cases are in the order of whether they are the default, of their values, of which an absent one
comes first, and of their names. -/
def EnumCase.Before (a b : EnumCase) : Prop :=
  a.isDefault < b.isDefault ∨ a.isDefault = b.isDefault ∧
    (valueRank a.value < valueRank b.value ∨ valueRank a.value = valueRank b.value ∧
      Name.bytes a.name < Name.bytes b.name)

/-- Fields are in the order of their first bits and of their names. -/
def Field.Before (a b : Field) : Prop :=
  a.bits.start < b.bits.start ∨ a.bits.start = b.bits.start ∧
    Name.bytes a.name < Name.bytes b.name

/-- Interrupts are in the order of their numbers and of their names. -/
def Interrupt.Before (a b : Interrupt) : Prop :=
  a.value < b.value ∨ a.value = b.value ∧ Name.bytes a.name < Name.bytes b.name

/-- **The cases of a field** of `width` bits: their values and masks fit the field, and their names
are apart. -/
structure CasesWellFormed (width : Nat) (cases : List EnumCase) : Prop where
  identifier : ∀ c ∈ cases, IsIdentifier c.name
  apart : Apart (cases.map (·.name))
  order : cases.Pairwise EnumCase.Before
  value : ∀ c ∈ cases, ∀ v ∈ c.value, v.toNat < 2 ^ width
  mask : ∀ c ∈ cases, c.mask.toNat < 2 ^ width

/-- **A field** of a register of `size` bits: it has a bit, and all its bits are bits of the
register. -/
structure Field.WellFormed (size : Nat) (f : Field) : Prop where
  identifier : IsIdentifier f.name
  nonempty : f.bits.start < f.bits.stop
  inside : f.bits.stop ≤ size
  cases : CasesWellFormed f.width f.cases

/-- **A register**: no two of its fields share a bit. -/
structure Register.WellFormed (r : Register) : Prop where
  identifier : IsIdentifier r.name
  size : 1 ≤ r.size ∧ r.size ≤ 64
  fields : ∀ f ∈ r.fields, f.WellFormed r.size
  apart : Apart (r.fields.map (·.name))
  order : r.fields.Pairwise Field.Before
  disjoint : r.fields.Pairwise fun f g => ∀ i, ¬(f.bits.Contains i ∧ g.bits.Contains i)

/-- **The registers and clusters of one node**, and those of the clusters inside.
Registers and clusters share one set of names. -/
inductive LevelWellFormed : List Register → List Cluster → Prop
  | level {registers : List Register} {clusters : List Cluster} :
    (∀ r ∈ registers, r.WellFormed) → (∀ c ∈ clusters, IsIdentifier c.name) →
      (∀ c ∈ clusters, LevelWellFormed c.registers c.clusters) →
      Apart (registers.map (·.name) ++ clusters.map (·.name)) →
      (registers.Pairwise fun a b => Name.bytes a.name < Name.bytes b.name) →
      (clusters.Pairwise fun a b => Name.bytes a.name < Name.bytes b.name) →
      LevelWellFormed registers clusters

theorem LevelWellFormed.register {registers : List Register} {clusters : List Cluster}
    (h : LevelWellFormed registers clusters) {r : Register} (hr : r ∈ registers) :
    r.WellFormed := by
  cases h with
  | level each _ _ _ _ _ => exact each r hr

theorem LevelWellFormed.cluster {registers : List Register} {clusters : List Cluster}
    (h : LevelWellFormed registers clusters) {c : Cluster} (hc : c ∈ clusters) :
    IsIdentifier c.name ∧ LevelWellFormed c.registers c.clusters := by
  cases h with
  | level _ names inner _ _ _ => exact ⟨names c hc, inner c hc⟩

/-- **A peripheral** with its interrupts. -/
structure Peripheral.WellFormed (p : Peripheral) : Prop where
  identifier : IsIdentifier p.name
  level : LevelWellFormed p.registers p.clusters
  interruptIdentifier : ∀ i ∈ p.interrupts, IsIdentifier i.name
  interruptsApart : Apart (p.interrupts.map (·.name))
  interruptOrder : p.interrupts.Pairwise Interrupt.Before

/-- **A device**: the map is well formed at every level, and so are the names of the peripherals. -/
structure Device.WellFormed (d : Device) : Prop where
  identifier : IsIdentifier d.name
  peripherals : ∀ p ∈ d.peripherals, p.WellFormed
  apart : Apart (d.peripherals.map (·.name))
  order : d.peripherals.Pairwise fun a b => Name.bytes a.name < Name.bytes b.name

end ChipMap.Map
