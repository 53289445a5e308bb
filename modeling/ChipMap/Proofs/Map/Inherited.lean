import ChipMap.Proofs.Map.Arranged
import ChipMap.Proofs.Map.FieldLayout

/-!
# What registers and fields inherit

A property that a register does not give is that of the cluster around it, else that of the next
cluster, and so on to the peripheral and the device; what nobody gives has a default.  **Each
register of a map has the first one given along its way** (`Register.Inherits`), whichever of the
five properties it is and however deep the register is, **and each field has its own attributes or
those that are in force for its register** (`Field.Inherits`).

`resolvedOfText_inherits` says so of all registers at once: those of a map are, one by one, those
that the description has at the places its arrays are expanded to (`levelRegisters`).

### What is load-bearing

A builder is not told the chain of properties but what is in force at its end, which is one record
of five properties.  The first one given along the chain is what is in force (`joined_eq`), for each
of the five by the same argument.

A node gets its final name only with the level that it is in.  So the induction over a child says
what becomes of it under whatever number its name gets (`StandsFor`).

Registers of the description and of the map are listed with their ways, the clusters around them
included.  The lists are related entry by entry up to a shuffle, as every level sorts its nodes; so
no register is forgotten, and none is there twice.
-/

namespace ChipMap.Map

open Description (Properties Item ClusterInfo)

/-! ### Properties along a chain -/

/-- What is in force at the inner end of a chain of properties, which goes from the inside out. -/
def joined (chain : List Properties) : Properties := chain.foldr Properties.orElse .empty

/-- **The first one that is given along a chain is in force.** -/
theorem joined_eq {α : Type} (get : Properties → Option α) (absent : get .empty = none)
    (step : ∀ p outer, get (p.orElse outer) = (get p).or (get outer)) (chain : List Properties) :
    get (joined chain) = chain.findSome? get := by
  induction chain with
  | nil => exact absent
  | cons p outer ih =>
      rw [List.findSome?_cons, ← ih]
      refine (step p (joined outer)).trans ?_
      cases get p with
      | none => rfl
      | some a => rfl

/-! ### The registers of a description -/

/-- **A register of a description**, at one of the places that arrays are expanded to.  The same
described register may be there several times. -/
structure Described where
  /-- The placements of the clusters around it and of the register, from the outside in. -/
  way : List Placement
  /-- The properties given by the register and by the nodes around it, from the inside out. -/
  chain : List Properties
  /-- The register. -/
  register : Description.Register

/-- A register in a cluster that is placed. -/
def Described.inside (p : Placement) (d : Described) : Described := { d with way := p :: d.way }

mutual

/-- The registers in a child of a node that is placed; `chain` are the properties around the
node. -/
def registersAt (affix : Affix) (chain : List Properties) (p : Placement) : Item → List Described
  | .register r => [⟨[p], r.properties :: chain, r⟩]
  | .cluster info children =>
    (levelRegisters affix (info.properties :: chain) children).map (.inside p)

/-- **The registers in the children of a node**, at every place of every child. -/
def levelRegisters (affix : Affix) (chain : List Properties) : List Item → List Described
  | [] => []
  | item :: rest =>
    (itemPlacements affix item).flatMap (fun p => registersAt affix chain p item) ++
      levelRegisters affix chain rest

end

theorem levelRegisters_eq_flatMap (affix : Affix) (chain : List Properties)
    (children : List Item) : levelRegisters affix chain children =
      children.flatMap fun c => (itemPlacements affix c).flatMap fun p =>
        registersAt affix chain p c := by
  induction children with
  | nil => rfl
  | cons c rest ih => rw [levelRegisters, ih, List.flatMap_cons]

/-! ### The registers of a map -/

/-- **A register of a map** and where it is.  The way tells registers of one name apart. -/
structure Held where
  /-- The places of the clusters around it and of the register, from the outside in. -/
  way : List Placement
  /-- The register. -/
  register : Register

/-- A register in a cluster. -/
def Held.inside (p : Placement) (h : Held) : Held := { h with way := p :: h.way }

/-- A register where it is in its node. -/
def Register.held (r : Register) : Held := ⟨[⟨r.name, r.addressOffset, r.vector⟩], r⟩

mutual

/-- The registers in a cluster. -/
def Cluster.held : Cluster → List Held
  | ⟨name, _, offset, vector, registers, clusters⟩ =>
    (registers.map Register.held ++ clustersHeld clusters).map (.inside ⟨name, offset, vector⟩)

/-- The registers in some clusters. -/
def clustersHeld : List Cluster → List Held
  | [] => []
  | c :: rest => c.held ++ clustersHeld rest

end

theorem clustersHeld_eq_flatMap (clusters : List Cluster) :
    clustersHeld clusters = clusters.flatMap Cluster.held := by
  induction clusters with
  | nil => rfl
  | cons c rest ih => rw [clustersHeld, ih, List.flatMap_cons]

/-- The register that an entry is, or those in the cluster that it is. -/
def Entry.held : Entry → List Held
  | .register r => [r.held]
  | .cluster c => c.held

/-- The registers of a level, at any depth. -/
def Contents.held (c : Contents) : List Held :=
  c.registers.map Register.held ++ c.clusters.flatMap Cluster.held

/-- **The registers of a peripheral**, at any depth. -/
def Peripheral.held (p : Peripheral) : List Held := Contents.held ⟨p.registers, p.clusters⟩

theorem Contents.held_eq (c : Contents) : c.held = c.entries.flatMap Entry.held := by
  rw [held, entries, List.flatMap_append, List.flatMap_map, List.flatMap_map,
    List.map_eq_flatMap]
  rfl

theorem Entry.held_placedCluster (info : ClusterInfo) (contents : Contents) (p : Placement)
    (name : String) :
    (Entry.cluster (placedCluster info contents p name)).held =
      contents.held.map (.inside { p with name }) := by
  rw [Entry.held, placedCluster, Cluster.held, clustersHeld_eq_flatMap, Contents.held]

/-! ### Inheritance -/

/-- **A field has its own attributes**, and those of its register where it gives none.  The register
is the one of the map, so its attributes may be inherited or defaults. -/
structure Field.Inherits (r : Register) (e : FieldElement) (x : Field) : Prop where
  name : ∃ id, Name.identifier? e.name = some id ∧ Name.Numbers id x.name
  bits : x.bits = e.bits
  access : x.access = e.field.access.getD r.access
  writeEffect : x.writeEffect = e.field.writeEffect.getD r.writeEffect
  writeConstraint : x.writeConstraint = e.field.writeConstraint.or r.writeConstraint
  readEffect : x.readEffect = e.field.readEffect.or r.readEffect

/-- **A register has the first of each property that is given along the chain**, or else its
default. -/
structure Register.Inherits (chain : List Properties) (r : Description.Register) (x : Register) :
    Prop where
  size : x.size = ((chain.findSome? Properties.size).getD 32).toNat
  access : x.access = (chain.findSome? Properties.access).getD .readWrite
  protection : x.protection = chain.findSome? Properties.protection
  resetValue : x.resetValue = (chain.findSome? Properties.resetValue).getD 0
  resetMask : x.resetMask = (chain.findSome? Properties.resetMask).getD (Bits.mask ⟨0, x.size⟩)
  writeEffect : x.writeEffect = r.writeEffect.getD .modify
  writeConstraint : x.writeConstraint = r.writeConstraint
  readEffect : x.readEffect = r.readEffect
  /-- Each element of its fields is there once, and there are no others. -/
  fields : Shuffled (Field.Inherits x) (r.fields.flatMap expanded) x.fields

/-- **A node is where it was placed**, under its identifier or this name with a number. -/
structure Placement.Kept (p q : Placement) : Prop where
  name : ∃ id, Name.identifier? p.name = some id ∧ Name.Numbers id q.name
  offset : q.offset = p.offset
  vector : q.vector = p.vector

/-- **A register of a map is one of the description** and has what this one inherits.  The ways of
the two agree step by step. -/
structure Described.Is (d : Described) (h : Held) : Prop where
  way : List.Forall₂ Placement.Kept d.way h.way
  register : Register.Inherits d.chain d.register h.register

theorem Described.Is.inside {d : Described} {h : Held} (is : d.Is h) {p q : Placement}
    (kept : p.Kept q) : (d.inside p).Is (h.inside q) :=
  ⟨.cons kept is.way, is.register⟩

/-! ### Registers -/

section Items

variable {parent : String} {affix : Affix} {chain : List Properties}

/-- **A placed register inherits** along the chain that begins with its own properties. -/
theorem placedRegister_inherits {r : Description.Register} {fields : List Field}
    (small : (fieldContext parent (joined chain) r).size ≤ 64) (ranged : ∀ f ∈ r.fields, f.Ranged)
    (h : (fieldContext parent (joined chain) r).fields r.fields = .ok fields) (p : Placement)
    (name : String) :
    Register.Inherits (r.properties :: chain) r
      (placedRegister (joined (r.properties :: chain)) r fields p name) where
  size := by rw [placedRegister, joined_eq Properties.size rfl fun _ _ => rfl]; rfl
  access := by rw [placedRegister, joined_eq Properties.access rfl fun _ _ => rfl]
  protection := by rw [placedRegister, joined_eq Properties.protection rfl fun _ _ => rfl]
  resetValue := by rw [placedRegister, joined_eq Properties.resetValue rfl fun _ _ => rfl]
  resetMask := by rw [placedRegister, joined_eq Properties.resetMask rfl fun _ _ => rfl]
  writeEffect := rfl
  writeConstraint := rfl
  readEffect := rfl
  fields := (fields_expand small ranged h).elements.mono fun _ _ is =>
    ⟨is.name, is.bits, is.access, is.writeEffect, is.writeConstraint, is.readEffect⟩

/-! ### Levels -/

/-- **An entry stands for a placement of a child**: under whatever number its name gets, its
registers are those of the child. -/
def StandsFor (affix : Affix) (chain : List Properties) (c : Item) (p : Placement) (e : Entry) :
    Prop :=
  ∀ n, Name.Numbers e.name n → Shuffled Described.Is (registersAt affix chain p c) (e.rename n).held

variable (chain) in
/-- **The registers of a level are those of its children**, when the entries stand for these. -/
theorem held_of_standsFor {children : List Item} {entries : List Entry}
    (h : buildItems parent (joined chain) affix children = .ok entries)
    (each : ∀ c ∈ children, ∀ own, buildItem parent (joined chain) affix c = .ok own →
      List.Forall₂ (StandsFor affix chain c) (itemPlacements affix c) own) :
    Shuffled Described.Is (levelRegisters affix chain children) (arrange entries).held := by
  obtain ⟨lists, hlists, rfl⟩ := buildItems_ok h
  have stands : List.Forall₂ (fun (at_ : Item × Placement) e => StandsFor affix chain at_.1 at_.2 e)
      (children.flatMap fun c => (itemPlacements affix c).map (c, ·)) lists.flatten := by
    rw [List.flatMap_def]
    refine List.rel_flatten (List.forall₂_map_left_iff.mpr ?_)
    exact (forall₂_members hlists).imp fun c own ⟨hc, _, done⟩ =>
      List.forall₂_map_left_iff.mpr (each c hc own done)
  have final : Shuffled (fun (at_ : Item × Placement) x =>
      Shuffled Described.Is (registersAt affix chain at_.2 at_.1) x.held)
      (children.flatMap fun c => (itemPlacements affix c).map (c, ·))
      (arrange lists.flatten).entries := by
    refine .comp stands (arrange_shuffled lists.flatten) ?_
    rintro at_ e _ stands ⟨n, rfl, numbers⟩
    exact stands n numbers
  have registers := final.flatMap fun _ _ same => same
  rw [List.flatMap_assoc] at registers
  simp only [List.flatMap_map] at registers
  rwa [levelRegisters_eq_flatMap, Contents.held_eq]

/-- **What a child is built to stands for it**, by induction over the child.  For a cluster the
levels inside are known, and their names are final. -/
theorem buildItem_standsFor (item : Item) : ∀ {parent : String} {chain : List Properties}
    {affix : Affix} {entries : List Entry}, item.Ranged →
      buildItem parent (joined chain) affix item = .ok entries →
        List.Forall₂ (StandsFor affix chain item) (itemPlacements affix item) entries := by
  induction item using Item.induct with
  | register r =>
      intro parent chain affix entries ranged h
      obtain ⟨built, hbuilt, rfl⟩ := buildItem_register_ok h
      obtain ⟨fields, ⟨-, small⟩, hfields, placed⟩ := buildRegister_ok hbuilt
      refine List.forall₂_map_right_iff.mpr (placed.imp ?_)
      rintro p _ ⟨id, named, rfl⟩ n numbers
      have inherits := placedRegister_inherits small ranged.of_register hfields p n
      exact ⟨_, .cons ⟨.cons ⟨⟨id, named, numbers⟩, rfl, rfl⟩ .nil, inherits⟩ .nil, .refl _⟩
  | cluster info children ih =>
      intro parent chain affix entries ranged h
      obtain ⟨inner, hinner, placed⟩ := buildItem_cluster_ok h
      have level := held_of_standsFor (info.properties :: chain) hinner fun c hc own done =>
        ih c hc (ranged.of_cluster.2 c hc) done
      refine placed.imp ?_
      rintro p _ ⟨id, named, rfl⟩ n numbers
      have held := Entry.held_placedCluster info (arrange inner) p n
      rw [registersAt]
      exact held ▸ level.map fun d h is => is.inside ⟨⟨id, named, numbers⟩, rfl, rfl⟩

end Items

/-! ### Peripherals -/

/-- **A peripheral of a map is an element of one of the description**, and its registers are those
of this one with what they inherit from there and from the device. -/
structure Peripheral.Inherits (d : Description.Device)
    (e : Description.Peripheral × String × Nat) (q : Peripheral) : Prop where
  name : ∃ id, Name.identifier? e.2.1 = some id ∧ Name.Numbers id q.name
  baseAddress : q.baseAddress.toNat = e.2.2
  registers : Shuffled Described.Is
    (levelRegisters (affixOf e.1) [e.1.properties, d.properties] e.1.children) q.held

/-- The elements of the peripherals of a description, each with its name and its first address. -/
def peripheralPlaces (d : Description.Device) : List (Description.Peripheral × String × Nat) :=
  d.peripherals.flatMap fun p => (peripheralInstances p).map (p, ·)

/-- **The registers of a map inherit along their ways.** -/
theorem ofDescription_inherits {d : Description.Device} {device : Device} (ranged : d.Ranged)
    (h : ofDescription d = .ok device) :
    Shuffled (Peripheral.Inherits d) (peripheralPlaces d) device.peripherals := by
  obtain ⟨lists, -, hlists, arranged⟩ := ofDescription_ok h
  -- A peripheral inherits as it does under any number that its name gets.
  have each : List.Forall₂ (fun e (x : Peripheral) => ∀ n, Name.Numbers x.name n →
      Peripheral.Inherits d e { x with name := n }) (peripheralPlaces d) lists.flatten := by
    rw [peripheralPlaces, List.flatMap_def]
    refine List.rel_flatten (List.forall₂_map_left_iff.mpr ?_)
    refine (forall₂_members hlists).imp fun p built ⟨hp, _, done⟩ => ?_
    obtain ⟨entries, interrupts, hentries, -, placed⟩ := buildPeripheral_ok done
    have outer : p.properties.orElse d.properties = joined [p.properties, d.properties] := by
      simp [joined]
    rw [outer] at hentries
    have level := held_of_standsFor [p.properties, d.properties] hentries fun c hc own done =>
      buildItem_standsFor c (ranged p hp c hc) done
    refine List.forall₂_map_left_iff.mpr (placed.imp ?_)
    rintro ⟨wanted, position⟩ _ ⟨small, id, named, rfl⟩ n numbers
    exact ⟨⟨id, named, numbers⟩, BitVec.toNat_ofNat .. |>.trans (Nat.mod_eq_of_lt small), level⟩
  refine arranged ▸ .comp each (arrangePeripherals_shuffled lists.flatten) ?_
  rintro e x _ inherits ⟨n, rfl, numbers⟩
  exact inherits n numbers

/-! ### Documents -/

/-- **The registers of a resolved document inherit along their ways**: in the map that is built of
it, every register at any depth has of each property the first one that is given by the register, by
the clusters around it from the inside out, by its peripheral and by the device, and every field has
its own attributes or those of its register. -/
theorem resolvedOfText_inherits {text : String} {d : Description.Device} {device : Device}
    (h : resolvedOfText text = .ok d) (built : ofDescription d = .ok device) :
    Shuffled (Peripheral.Inherits d) (peripheralPlaces d) device.peripherals :=
  ofDescription_inherits (ranged_of_resolvedOfText h) built

/-- A document with a chain of properties: the device gives a size, the peripheral an access, the
cluster a reset value, and one of its registers a size and an access of its own. -/
def chained : String :=
  "<device><name>D</name><size>16</size><peripherals><peripheral><name>P</name>
  <baseAddress>0</baseAddress><access>read-only</access><registers><cluster><name>C</name>
  <addressOffset>0</addressOffset><resetValue>3</resetValue><register><name>R</name>
  <addressOffset>0</addressOffset><fields><field><name>F</name><bitRange>[3:0]</bitRange></field>
  </fields></register><register><name>S</name><addressOffset>4</addressOffset><size>8</size>
  <access>write-only</access></register></cluster></registers></peripheral></peripherals></device>"

set_option maxRecDepth 4000 in
/-- **The registers of the chained document.** -/
theorem ofText_chained : ∃ checked, ofText chained = .ok checked ∧
    (checked.device.peripherals.flatMap Peripheral.held).map
        (fun h => (h.way.map (·.name), h.register.size, h.register.access, h.register.resetValue,
          h.register.resetMask, h.register.fields.map (·.access))) =
      [(["C", "R"], 16, .readOnly, 3, 0xFFFF, [.readOnly]),
        (["C", "S"], 8, .writeOnly, 3, 0xFF, [])] := by
  have written : chained = String.ofList _ := rfl
  have read := Description.ofText_eq written
  refine map_eq_ok.mp ?_
  rw [ofText, resolvedOfText, read]
  cbv

theorem resolvedOfText_inherits_chained : ∃ d device, resolvedOfText chained = .ok d ∧
    ofDescription d = .ok device ∧
    Shuffled (Peripheral.Inherits d) (peripheralPlaces d) device.peripherals := by
  obtain ⟨checked, h, -⟩ := ofText_chained
  obtain ⟨d, device, resolved, built, -⟩ := exists_of_ofText h
  exact ⟨d, device, resolved, built, resolvedOfText_inherits resolved built⟩

end ChipMap.Map
