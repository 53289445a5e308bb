import ChipMap.Map.OfDescription
import ChipMap.Proofs.Sequence

/-!
# The parts of a map

A map is built from the inside out.  Each step reads a node of the description, needs what its parts
have become, and returns nodes of one form or a fault.  Here each step is taken apart once: **what a
field, a register, a cluster, a peripheral and a device that are built are made of**.

The statements about maps begin with these lemmas.  None of them looks into the builder again, apart
from those about its faults.

### What is load-bearing

A node stands for one node of the map at each place that its array is expanded to, and these differ
in nothing but name and place.  So a step is said of one list of places and one list of nodes, entry
by entry, and what is known of a place is known of its node.

What a node becomes at a place is written down as a function of the place and of an identifier
(`placedField`, `placedRegister`, `placedCluster`, `placedPeripheral`).  Each attribute of a built
node can be read off these.
-/

namespace ChipMap.Map

open Description (Properties Item ClusterInfo)

/-! ### Names and positions -/

theorem identifier_ok {path name id : String} (h : identifier path name = .ok id) :
    Name.identifier? name = some id := by
  unfold identifier at h
  cases found : Name.identifier? name with
  | none =>
      rw [found] at h
      cases h
  | some id' =>
      rw [found] at h
      rw [Except.ok.inj h]

theorem given_ok {α : Type} {path element : String} {o : Option α} {a : α}
    (h : given path element o = .ok a) : o = some a := by
  cases o with
  | none => cases h
  | some b => rw [Except.ok.inj h]

theorem instances_small (name : String) {start : Nat} (small : start < Word.count)
    (dimension : Option Description.Dimension) :
    ∀ i ∈ instances name start dimension, i.2 < Word.count := by
  intro i hi
  cases dimension with
  | none =>
      obtain rfl := List.mem_singleton.mp hi
      exact small
  | some d =>
      obtain ⟨pair, hpair, rfl⟩ := List.mem_map.mp hi
      obtain ⟨numbered, -, rfl⟩ := List.mem_map.mp hpair
      simp only [elementOffset, clampedAdd, clamp, Word.greatest, Word.count]
      omega

/-! ### Fields -/

section Fields

variable {register path : String} {size width : Nat} {defaults : FieldDefaults}
variable {cases : List EnumCase} {f : Description.Field}

/-- The field that an element of a field becomes under an identifier.  Attributes that the field
does not give are those of its register. -/
def placedField (width : Nat) (defaults : FieldDefaults) (cases : List EnumCase)
    (f : Description.Field) (start : Nat) (name : String) : Field where
  name
  description := f.description
  bits := ⟨start, clampedAdd start width⟩
  access := f.access.getD defaults.access
  writeEffect := f.writeEffect.getD defaults.writeEffect
  writeConstraint := f.writeConstraint.or defaults.writeConstraint
  readEffect := f.readEffect.or defaults.readEffect
  cases

/-- **An element of a field** ends inside its register. -/
theorem buildFieldElement_ok {element : String × Nat} {built : Field}
    (h : buildFieldElement register path size width defaults cases f element = .ok built) :
    clampedAdd element.2 width ≤ size ∧ ∃ name, Name.identifier? element.1 = some name ∧
      built = placedField width defaults cases f element.2 name := by
  unfold buildFieldElement at h
  dsimp only at h
  split at h
  · cases h
  · next inside =>
    obtain ⟨name, hname, h⟩ := bind_eq_ok.mp h
    exact ⟨Nat.not_lt.mp inside, name, identifier_ok hname, (Except.ok.inj h).symm⟩

/-- **The fields that a field stands for**: one for each element, all with the same cases. -/
theorem buildField_ok {built : List Field}
    (h : buildField register size defaults f = .ok built) :
    ∃ range cases, f.bitRange = some range ∧
      buildCases (register ++ "." ++ f.name) (min (bitCount range) 64) f = .ok cases ∧
      List.Forall₂ (fun i x => buildFieldElement register (register ++ "." ++ f.name) size
          (bitCount range) defaults cases f i = .ok x)
        (instances f.name range.lsb.toNat f.dimension) built := by
  obtain ⟨range, hrange, h⟩ := bind_eq_ok.mp h
  obtain ⟨cases, hcases, h⟩ := bind_eq_ok.mp h
  exact ⟨range, cases, given_ok hrange, hcases, mapM_eq_ok.mp h⟩

end Fields

/-- **What a register tells the builder of its fields.**  It is all that fields depend on outside of
themselves. -/
structure FieldContext where
  /-- The path of the register. -/
  path : String
  /-- The number of its bits. -/
  size : Nat
  /-- The attributes of fields that have none of their own. -/
  defaults : FieldDefaults

/-- What a register tells the builder of its fields, with the properties of the nodes around it. -/
def fieldContext (parent : String) (outer : Properties) (r : Description.Register) :
    FieldContext where
  path := parent ++ "." ++ r.name
  size := ((r.properties.orElse outer).size.getD defaultSize).toNat
  defaults :=
    { access := (r.properties.orElse outer).access.getD .readWrite
      writeEffect := r.writeEffect.getD .modify
      writeConstraint := r.writeConstraint
      readEffect := r.readEffect }

/-- The fields that a field of a register stands for. -/
def FieldContext.field (c : FieldContext) : Description.Field → Except MapFault (List Field) :=
  buildField c.path c.size c.defaults

/-- The fields of a register from those described. -/
def FieldContext.fields (c : FieldContext) (fields : List Description.Field) :
    Except MapFault (List Field) :=
  buildFields c.path c.size c.defaults fields

/-! ### Registers -/

/-- The register that a placement of a register becomes under an identifier, with the properties
that are in force there. -/
def placedRegister (properties : Properties) (r : Description.Register) (fields : List Field)
    (p : Placement) (name : String) : Register :=
  let size := (properties.size.getD defaultSize).toNat
  { name
    displayName := r.displayName
    description := r.description
    addressOffset := p.offset
    size
    access := properties.access.getD .readWrite
    protection := properties.protection
    resetValue := properties.resetValue.getD 0
    resetMask := properties.resetMask.getD (Bits.mask ⟨0, size⟩)
    writeEffect := r.writeEffect.getD .modify
    writeConstraint := r.writeConstraint
    readEffect := r.readEffect
    vector := p.vector
    fields }

/-- The placements of a child of a node; only registers get the affixes of their peripheral.  A
child without an offset has none. -/
def itemPlacements (affix : Affix) : Item → List Placement
  | .register r => r.addressOffset.toList.flatMap fun offset =>
      (placements r.name offset r.dimension).map fun p => { p with name := affix.apply p.name }
  | .cluster info _ => info.addressOffset.toList.flatMap fun offset =>
      placements info.name offset info.dimension

section Items

variable {parent : String} {outer : Properties} {affix : Affix}

/-- **The registers that a register stands for**: one for each placement, all with the same
fields. -/
theorem buildRegister_ok {r : Description.Register} {built : List Register}
    (h : buildRegister parent outer affix r = .ok built) :
    ∃ fields, (1 ≤ (fieldContext parent outer r).size ∧ (fieldContext parent outer r).size ≤ 64) ∧
      (fieldContext parent outer r).fields r.fields = .ok fields ∧
      List.Forall₂ (fun p x => ∃ name, Name.identifier? p.name = some name ∧
          x = placedRegister (r.properties.orElse outer) r fields p name)
        (itemPlacements affix (.register r)) built := by
  unfold buildRegister at h
  obtain ⟨offset, hoffset, h⟩ := bind_eq_ok.mp h
  dsimp only at h
  split at h
  · cases h
  · next size =>
    obtain ⟨fields, hfields, h⟩ := bind_eq_ok.mp h
    obtain ⟨some, small⟩ := not_or.mp size
    refine ⟨fields, ⟨Nat.le_of_not_lt some, Nat.le_of_not_lt small⟩, hfields, ?_⟩
    rw [itemPlacements, given_ok hoffset, Option.toList_some, List.flatMap_singleton,
      List.forall₂_map_left_iff]
    refine (mapM_eq_ok.mp h).imp fun p x hx => ?_
    obtain ⟨name, hname, hx⟩ := bind_eq_ok.mp hx
    exact ⟨name, identifier_ok hname, (Except.ok.inj hx).symm⟩

/-! ### Clusters -/

/-- The cluster that a placement of a cluster becomes under an identifier. -/
def placedCluster (info : ClusterInfo) (contents : Contents) (p : Placement) (name : String) :
    Cluster where
  name
  description := info.description
  addressOffset := p.offset
  vector := p.vector
  registers := contents.registers
  clusters := contents.clusters

/-- **The clusters that a cluster stands for**: one for each placement, all with the same registers
and clusters in them. -/
theorem buildItem_cluster_ok {info : ClusterInfo} {children : List Item} {entries : List Entry}
    (h : buildItem parent outer affix (.cluster info children) = .ok entries) :
    ∃ inner, buildItems (parent ++ "." ++ info.name) (info.properties.orElse outer) affix children =
        .ok inner ∧
      List.Forall₂ (fun p e => ∃ name, Name.identifier? p.name = some name ∧
          e = .cluster (placedCluster info (arrange inner) p name))
        (itemPlacements affix (.cluster info children)) entries := by
  rw [buildItem] at h
  obtain ⟨offset, hoffset, h⟩ := bind_eq_ok.mp h
  obtain ⟨inner, hinner, h⟩ := bind_eq_ok.mp h
  obtain ⟨built, hbuilt, h⟩ := bind_eq_ok.mp h
  obtain rfl := Except.ok.inj h
  refine ⟨inner, hinner, ?_⟩
  rw [itemPlacements, given_ok hoffset, Option.toList_some, List.flatMap_singleton,
    List.forall₂_map_right_iff]
  refine (mapM_eq_ok.mp hbuilt).imp fun p x hx => ?_
  obtain ⟨name, hname, hx⟩ := bind_eq_ok.mp hx
  exact ⟨name, identifier_ok hname, congrArg Entry.cluster (Except.ok.inj hx).symm⟩

theorem buildItem_register_ok {r : Description.Register} {entries : List Entry}
    (h : buildItem parent outer affix (.register r) = .ok entries) :
    ∃ built, buildRegister parent outer affix r = .ok built ∧ entries = built.map .register := by
  rw [buildItem] at h
  obtain ⟨built, hbuilt, h⟩ := bind_eq_ok.mp h
  exact ⟨built, hbuilt, (Except.ok.inj h).symm⟩

/-! ### Levels -/

theorem buildItems_eq (parent : String) (outer : Properties) (affix : Affix) (items : List Item) :
    buildItems parent outer affix items =
      List.flatten <$> items.mapM (buildItem parent outer affix) := by
  induction items with
  | nil => rfl
  | cons item rest ih =>
      rw [buildItems, List.mapM_cons, ih]
      cases buildItem parent outer affix item with
      | error e => rfl
      | ok first =>
          cases rest.mapM (buildItem parent outer affix) with
          | error e => rfl
          | ok others => rfl

/-- **The entries of a level** are those of its children, one after another. -/
theorem buildItems_ok {children : List Item} {entries : List Entry}
    (h : buildItems parent outer affix children = .ok entries) :
    ∃ lists, List.Forall₂ (fun c own => buildItem parent outer affix c = .ok own) children lists ∧
      entries = lists.flatten := by
  rw [buildItems_eq] at h
  obtain ⟨lists, hlists, same⟩ := map_eq_ok.mp h
  exact ⟨lists, mapM_eq_ok.mp hlists, same.symm⟩

end Items

/-! ### Peripherals and devices -/

/-- What a peripheral puts around the names of its registers. -/
def affixOf (p : Description.Peripheral) : Affix :=
  ⟨p.prependToName.getD "", p.appendToName.getD ""⟩

/-- The peripheral that an element of a peripheral becomes under an identifier. -/
def placedPeripheral (p : Description.Peripheral) (contents : Contents)
    (interrupts : List Interrupt) (position : Nat) (name : String) : Peripheral where
  name
  description := p.description
  groupName := p.groupName
  baseAddress := BitVec.ofNat 64 position
  addressRange := occupied p.addressBlocks contents
  interrupts
  registers := contents.registers
  clusters := contents.clusters

/-- The names and the first addresses of the peripherals that a peripheral stands for. -/
def peripheralInstances (p : Description.Peripheral) : List (String × Nat) :=
  p.baseAddress.toList.flatMap fun base => instances p.name base.toNat p.dimension

/-- **The peripherals that a peripheral stands for**: one for each element, all with the same
interrupts, registers and clusters. -/
theorem buildPeripheral_ok {outer : Properties} {p : Description.Peripheral}
    {built : List Peripheral} (h : buildPeripheral outer p = .ok built) :
    ∃ entries interrupts,
      buildItems p.name (p.properties.orElse outer) (affixOf p) p.children = .ok entries ∧
      buildInterrupts p = .ok interrupts ∧
      List.Forall₂ (fun i x => i.2 < Word.count ∧ ∃ name, Name.identifier? i.1 = some name ∧
          x = placedPeripheral p (arrange entries) interrupts i.2 name)
        (peripheralInstances p) built := by
  obtain ⟨base, hbase, h⟩ := bind_eq_ok.mp h
  obtain ⟨entries, hentries, h⟩ := bind_eq_ok.mp h
  obtain ⟨interrupts, hinterrupts, h⟩ := bind_eq_ok.mp h
  refine ⟨entries, interrupts, hentries, hinterrupts, ?_⟩
  rw [peripheralInstances, given_ok hbase, Option.toList_some, List.flatMap_singleton]
  refine (forall₂_members (mapM_eq_ok.mp h)).imp ?_
  rintro ⟨wanted, position⟩ x ⟨hi, -, hx⟩
  obtain ⟨name, hname, hx⟩ := bind_eq_ok.mp hx
  exact ⟨instances_small p.name base.isLt p.dimension _ hi, name, identifier_ok hname,
    (Except.ok.inj hx).symm⟩

/-- Peripherals under their final names, in canonical order. -/
def arrangePeripherals (built : List Peripheral) : List Peripheral :=
  Name.sortOn Name.textLe (·.name) <|
    Name.renameInOrder (Name.lexLe Name.natLe) (fun p => (p.name, p.baseAddress.toNat)) (·.name)
      (fun p name => { p with name }) built

/-- **A device has its name and the peripherals that its peripherals stand for**, arranged. -/
theorem ofDescription_ok {d : Description.Device} {device : Device}
    (h : ofDescription d = .ok device) :
    ∃ lists, Name.identifier? d.name = some device.name ∧
      List.Forall₂ (fun p built => buildPeripheral d.properties p = .ok built) d.peripherals lists ∧
      device.peripherals = arrangePeripherals lists.flatten := by
  obtain ⟨name, hname, h⟩ := bind_eq_ok.mp h
  obtain ⟨lists, hlists, h⟩ := bind_eq_ok.mp h
  obtain rfl := Except.ok.inj h
  exact ⟨lists, identifier_ok hname, mapM_eq_ok.mp hlists, rfl⟩

end ChipMap.Map
