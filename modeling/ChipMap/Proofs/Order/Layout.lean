import ChipMap.Proofs.Description.Item
import ChipMap.Proofs.Map.Fields
import ChipMap.Proofs.Order.Description
import ChipMap.Proofs.Order.Sorted

/-!
# Maps in another order

A map is in a canonical order, and names are claimed in an order of names and addresses.  So a
description has **the same map in any order of siblings** (`ofDescription_alike`), as long as no two
siblings that arrays are expanded to have both one identifier and one address (`DeviceUntied`):
which of two such siblings gets the name is decided by which one comes first.

### What is load-bearing

Registers claim their names before clusters of the same name and offset, so a register and a cluster
may share both: what a level is sorted by is name, address and kind (`NodeElement.key`).  The nodes
that are built have the names and addresses of the elements that the description stands for
(`Becomes`), so elements that are not tied give nodes with distinct keys.

The elements are read off the description alone.  Whether two of them are tied can be decided
without building anything, and the hypothesis of the law speaks of the document and not of its map.
-/

namespace ChipMap.Map

open Description (ItemKind Properties Item ClusterInfo)

/-! ### Elements -/

/-- **An element that a node of a description stands for**, after arrays are expanded. -/
structure NodeElement where
  /-- The kind of the node. -/
  kind : ItemKind
  /-- The name of the element, before or after it is made an identifier. -/
  name : String
  /-- The base address, the address offset or the first bit. -/
  address : Nat
deriving DecidableEq, Repr

/-- The element of a kind that has a name and an address. -/
def NodeElement.ofKey (kind : ItemKind) (key : String × Nat) : NodeElement := ⟨kind, key.1, key.2⟩

/-- The elements that a field stands for. -/
def fieldElements (f : Description.Field) : List NodeElement :=
  f.bitRange.toList.flatMap fun range =>
    (instances f.name range.lsb.toNat f.dimension).map (NodeElement.ofKey .field)

/-- The elements that a register or cluster stands for; only the names of registers get the affixes
of their peripheral. -/
def itemElements (affix : Affix) : Item → List NodeElement
  | .register r => r.addressOffset.toList.flatMap fun offset =>
      (placements r.name offset r.dimension).map fun p =>
        ⟨.register, affix.apply p.name, p.offset.toNat⟩
  | .cluster info _ => info.addressOffset.toList.flatMap fun offset =>
      (placements info.name offset info.dimension).map fun p =>
        ⟨.cluster, p.name, p.offset.toNat⟩

/-- The elements that a peripheral stands for. -/
def peripheralElements (p : Description.Peripheral) : List NodeElement :=
  p.baseAddress.toList.flatMap fun base =>
    (instances p.name base.toNat p.dimension).map (NodeElement.ofKey .peripheral)

/-- **No two elements of one kind have one identifier and one address.** -/
def Untied (elements : List NodeElement) : Prop :=
  elements.Pairwise fun a b => a.kind = b.kind →
    ∀ id ∈ Name.identifier? a.name, id ∈ Name.identifier? b.name → a.address ≠ b.address

instance : DecidablePred Untied := fun _ => inferInstanceAs (Decidable (List.Pairwise _ _))

/-- The siblings inside a register or cluster are not tied, at any depth. -/
inductive ItemUntied (affix : Affix) : Item → Prop
  | register {r : Description.Register} :
    Untied (r.fields.flatMap fieldElements) → ItemUntied affix (.register r)
  | cluster {info : ClusterInfo} {children : List Item} :
    Untied (children.flatMap (itemElements affix)) → (∀ c ∈ children, ItemUntied affix c) →
      ItemUntied affix (.cluster info children)

/-- The siblings inside a peripheral are not tied. -/
def PeripheralUntied (p : Description.Peripheral) : Prop :=
  Untied (p.children.flatMap (itemElements (affixOf p))) ∧
    ∀ c ∈ p.children, ItemUntied (affixOf p) c

/-- **No two siblings of one kind have one identifier and one address**, once arrays are
expanded. -/
def DeviceUntied (d : Description.Device) : Prop :=
  Untied (d.peripherals.flatMap peripheralElements) ∧ ∀ p ∈ d.peripherals, PeripheralUntied p

/-! ### The nodes that are built -/

/-- The element that a field of a map is. -/
def Field.element (f : Field) : NodeElement := ⟨.field, f.name, f.bits.start⟩

/-- The element that a register or cluster of a map is. -/
def Entry.element : Entry → NodeElement
  | .register r => ⟨.register, r.name, r.addressOffset.toNat⟩
  | .cluster c => ⟨.cluster, c.name, c.addressOffset.toNat⟩

/-- The element that a peripheral of a map is. -/
def Peripheral.element (p : Peripheral) : NodeElement := ⟨.peripheral, p.name, p.baseAddress.toNat⟩

/-- **An element under its identifier.** -/
structure Becomes (e built : NodeElement) : Prop where
  kind : built.kind = e.kind
  identifier : Name.identifier? e.name = some built.name
  address : built.address = e.address

/-! ### Keys -/

/-- Which of two nodes of one name and address claims its name first. -/
def kindRank : ItemKind → Nat
  | .peripheral => 0
  | .register => 1
  | .cluster => 2
  | .field => 3

theorem kindRank_injective : Function.Injective kindRank := by
  intro a b same
  cases a <;> cases b <;> first | rfl | cases same

/-- **What the nodes of a level are sorted by** when they claim their names. -/
def NodeElement.key (e : NodeElement) : String × Nat × Nat := (e.name, e.address, kindRank e.kind)

theorem NodeElement.key_injective : Function.Injective NodeElement.key := by
  rintro ⟨kind, name, address⟩ ⟨kind', name', address'⟩ same
  simp only [NodeElement.key, Prod.mk.injEq] at same
  obtain ⟨rfl, rfl, same⟩ := same
  rw [kindRank_injective same]

/-- The order in which the names of a level are claimed. -/
def claimLe : String × Nat × Nat → String × Nat × Nat → Bool :=
  Name.lexLe (Name.lexLe Name.natLe)

theorem claimLe_totalOrder : Name.TotalOrder claimLe := Name.natLe_totalOrder.lexLe.lexLe

/-- Keys of one kind are in the order of names and addresses. -/
theorem claimLe_of_kind {a b : NodeElement} (same : a.kind = b.kind) :
    claimLe a.key b.key = Name.lexLe Name.natLe (a.name, a.address) (b.name, b.address) := by
  rw [Bool.eq_iff_iff]
  simp only [claimLe, Name.lexLe_iff, NodeElement.key, same, Name.natLe, decide_eq_true_eq, le_refl,
    and_true, Nat.le_iff_lt_or_eq]

section Built

variable {α β : Type} {element : α → NodeElement}

/-- Nodes of one kind are sorted by names and addresses. -/
theorem sortOn_of_kind {kind : ItemKind} (one : ∀ x, (element x).kind = kind) (nodes : List α) :
    Name.sortOn (Name.lexLe Name.natLe) (fun x => ((element x).name, (element x).address)) nodes =
      Name.sortOn claimLe (fun x => (element x).key) nodes := by
  unfold Name.sortOn
  simp only [claimLe_of_kind ((one _).trans (one _).symm)]

/-- Elements that are not tied become nodes of different names or addresses. -/
theorem apart_of_untied {elements : List NodeElement} {built : List α}
    (h : List.Forall₂ (fun e x => Becomes e (element x)) elements built)
    (untied : Untied elements) :
    built.Pairwise fun x y => (element x).kind = (element y).kind → element x ≠ element y := by
  refine pairwise_of_forall₂ h.flip untied ?_
  rintro x - y - a - b - ha hb differ kind same
  refine differ (ha.kind.symm.trans (kind.trans hb.kind)) _ ha.identifier ?_ ?_
  · rw [same]
    exact hb.identifier
  · rw [← ha.address, ← hb.address, same]

/-- What lists of nodes that are built one after another are the elements of. -/
theorem becomes_flatten {items : List β} {lists : List (List α)} {elements : β → List NodeElement}
    {build : β → Except MapFault (List α)} (h : items.mapM build = .ok lists)
    (each : ∀ x ∈ items, ∀ built, build x = .ok built →
      List.Forall₂ (fun e x => Becomes e (element x)) (elements x) built) :
    List.Forall₂ (fun e x => Becomes e (element x)) (items.flatMap elements) lists.flatten := by
  rw [List.flatMap_def]
  refine List.rel_flatten (List.forall₂_map_left_iff.mpr ?_)
  exact (forall₂_members (mapM_eq_ok.mp h)).imp fun x built ⟨hx, _, run⟩ => each x hx built run

/-- Nodes that are built from shuffled lists, one list from each entry. -/
theorem flatten_alike {R : β → β → Prop} {items items' : List β}
    {build : β → Except MapFault (List α)} (h : Shuffled R items items')
    (step : ∀ x y, R x y → Alike Eq (build x) (build y)) :
    Alike (fun lists lists' => lists.flatten.Perm lists'.flatten) (items.mapM build)
      (items'.mapM build) :=
  (Alike.mapM h step).mono fun _ _ shuffled => shuffled.perm.flatten

end Built

/-! ### Fields -/

theorem buildField_becomes {register : String} {size : Nat} {defaults : FieldDefaults}
    {f : Description.Field} {built : List Field}
    (h : buildField register size defaults f = .ok built) :
    List.Forall₂ (fun e x => Becomes e x.element) (fieldElements f) built := by
  obtain ⟨range, cases, hrange, -, elements⟩ := buildField_ok h
  rw [fieldElements, hrange, Option.toList_some, List.flatMap_singleton, List.forall₂_map_left_iff]
  refine elements.imp fun element x hx => ?_
  obtain ⟨-, name, named, rfl⟩ := buildFieldElement_ok hx
  exact ⟨rfl, named, rfl⟩

/-- **The fields of a register are built alike in any order.** -/
theorem buildFields_alike {register : String} {size : Nat} {defaults : FieldDefaults}
    {fields fields' : List Description.Field} (p : fields.Perm fields')
    (untied : Untied (fields.flatMap fieldElements)) :
    Alike Eq (buildFields register size defaults fields)
      (buildFields register size defaults fields') := by
  have built : Alike (fun lists lists' => lists.flatten.Perm lists'.flatten)
      (fields.mapM (buildField register size defaults))
      (fields'.mapM (buildField register size defaults)) := by
    refine flatten_alike (.of_perm p) ?_
    rintro f _ rfl
    exact .refl _
  refine built.returned.bind fun lists lists' ⟨done, _, perm⟩ => ?_
  have apart := apart_of_untied (becomes_flatten done fun f _ _ => buildField_becomes) untied
  have distinct : (lists.flatten.map fun f => (f.name, f.bits.start)).Nodup := by
    refine List.pairwise_map.mpr (apart.imp fun differ same => differ rfl ?_)
    exact congrArg (NodeElement.ofKey .field) same
  rw [Name.renameInOrder_congr (Name.sortOn_perm_congr Name.natLe_totalOrder.lexLe perm distinct)]
  exact .refl _

/-! ### Registers and clusters -/

/-- **A register is built alike with its fields in any order.** -/
theorem buildRegister_alike {parent : String} {outer : Properties} {affix : Affix}
    {r r' : Description.Register} (h : r.Reordered r')
    (untied : Untied (r.fields.flatMap fieldElements)) :
    Alike Eq (buildRegister parent outer affix r) (buildRegister parent outer affix r') := by
  obtain ⟨fields, p, rfl⟩ := h
  unfold buildRegister
  refine (Alike.refl _).bind_eq fun offset => ?_
  dsimp only
  split
  · exact .error
  · exact (buildFields_alike p untied).bind_eq fun fields => .refl _

/-- The element that a placement of a child is. -/
def NodeElement.ofPlacement (kind : ItemKind) (p : Placement) : NodeElement :=
  ⟨kind, p.name, p.offset.toNat⟩

theorem itemElements_register (affix : Affix) (r : Description.Register) :
    itemElements affix (.register r) =
      (itemPlacements affix (.register r)).map (.ofPlacement .register) := by
  simp only [itemElements, itemPlacements, List.map_flatMap, List.map_map]
  rfl

theorem itemElements_cluster (affix : Affix) (info : ClusterInfo) (children : List Item) :
    itemElements affix (.cluster info children) =
      (itemPlacements affix (.cluster info children)).map (.ofPlacement .cluster) := by
  simp only [itemElements, itemPlacements, List.map_flatMap]
  rfl

/-- **The entries of a child are its elements.** -/
theorem buildItem_becomes {parent : String} {outer : Properties} {affix : Affix} {item : Item}
    {entries : List Entry} (h : buildItem parent outer affix item = .ok entries) :
    List.Forall₂ (fun e x => Becomes e x.element) (itemElements affix item) entries := by
  cases item with
  | register r =>
      obtain ⟨built, hbuilt, rfl⟩ := buildItem_register_ok h
      obtain ⟨fields, -, -, placed⟩ := buildRegister_ok hbuilt
      rw [itemElements_register, List.forall₂_map_left_iff, List.forall₂_map_right_iff]
      refine placed.imp ?_
      rintro p _ ⟨name, named, rfl⟩
      exact ⟨rfl, named, rfl⟩
  | cluster info children =>
      obtain ⟨inner, -, placed⟩ := buildItem_cluster_ok h
      rw [itemElements_cluster, List.forall₂_map_left_iff]
      refine placed.imp ?_
      rintro p _ ⟨name, named, rfl⟩
      exact ⟨rfl, named, rfl⟩

/-- The registers of some entries before the clusters, which is the order in which they claim their
names. -/
def registersFirst (entries : List Entry) : List Entry :=
  (entries.filterMap Entry.register?).map .register ++
    (entries.filterMap Entry.cluster?).map .cluster

theorem registersFirst_perm (entries : List Entry) : (registersFirst entries).Perm entries := by
  induction entries with
  | nil => exact .nil
  | cons e rest ih =>
      cases e with
      | register r => exact ih.cons _
      | cluster c => exact List.perm_middle.trans (ih.cons _)

/-- Entries of one kind stand among the others as they did. -/
theorem filter_registersFirst {p : Entry → Bool}
    (one : ∀ e e', p e = true → p e' = true → e.element.kind = e'.element.kind)
    (entries : List Entry) :
    (registersFirst entries).filter p = entries.filter p := by
  induction entries with
  | nil => rfl
  | cons e rest ih =>
      cases e with
      | register r =>
          change (Entry.register r :: registersFirst rest).filter p = _
          rw [List.filter_cons, List.filter_cons, ih]
      | cluster c =>
          rw [registersFirst, List.filter_append] at ih ⊢
          change ((rest.filterMap Entry.register?).map Entry.register).filter p ++
            (Entry.cluster c :: (rest.filterMap Entry.cluster?).map Entry.cluster).filter p = _
          cases here : p (.cluster c) with
          | false =>
              rw [List.filter_cons_of_neg (by simp [here]), List.filter_cons_of_neg (by simp [here])]
              exact ih
          | true =>
              -- The kind is that of clusters, so no register is left.
              have none : ((rest.filterMap Entry.register?).map Entry.register).filter p = [] := by
                refine List.filter_eq_nil_iff.mpr fun e he found => ?_
                obtain ⟨r, -, rfl⟩ := List.mem_map.mp he
                cases one _ _ found here
              rw [none, List.nil_append] at ih ⊢
              rw [List.filter_cons_of_pos here, List.filter_cons_of_pos here, ih]

/-- **Registers and clusters claim their names in the order of their keys.** -/
theorem sortOn_registersFirst (entries : List Entry) :
    Name.sortOn (Name.lexLe Name.natLe) (fun e => (e.name, e.offset)) (registersFirst entries) =
      Name.sortOn claimLe (fun e => e.element.key) entries := by
  have named (e : Entry) : (e.name, e.offset) = (e.element.name, e.element.address) := by
    cases e <;> rfl
  -- The kind is the last part of a key, and registers stand before clusters already.
  have ranked : (registersFirst entries).Pairwise fun a b =>
      kindRank a.element.kind ≤ kindRank b.element.kind := by
    refine List.pairwise_append.mpr
      ⟨List.pairwise_map.mpr (List.pairwise_of_forall fun _ _ => le_rfl),
        List.pairwise_map.mpr (List.pairwise_of_forall fun _ _ => le_rfl), fun a ha b hb => ?_⟩
    obtain ⟨r, -, rfl⟩ := List.mem_map.mp ha
    obtain ⟨c, -, rfl⟩ := List.mem_map.mp hb
    exact Nat.le_succ 1
  simp only [named]
  have total := (Name.natLe_totalOrder.lexLe (α := String))
  refine Name.eq_of_filter_eq claimLe_totalOrder ?_ (Name.sortOn_pairwise claimLe_totalOrder)
    fun k => ?_
  · refine (Name.sortOn_pairwise_of_pairwise total ranked).imp fun {a b} ⟨le, tie⟩ => ?_
    rw [Name.lexLe_iff] at le
    simp only [claimLe, Name.lexLe_iff, NodeElement.key, Name.natLe, decide_eq_true_eq] at le ⊢
    rcases le with first | ⟨same, le⟩
    · exact .inl first
    · refine .inr ⟨same, ?_⟩
      rcases Nat.lt_or_eq_of_le le with second | second
      · exact .inl second
      · exact .inr ⟨second, tie (Prod.ext same second)⟩
  · rw [Name.filter_sortOn claimLe_totalOrder, ← filter_registersFirst ?_ entries]
    · -- Entries of one key have one name and address, and of these each kept its place.
      have within (l : List Entry) : l.filter (fun e => decide (e.element.key = k)) =
          (l.filter fun e => decide ((e.element.name, e.element.address) = (k.1, k.2.1))).filter
            fun e => decide (e.element.key = k) := by
        rw [List.filter_filter]
        refine List.filter_congr fun e _ => ?_
        by_cases own : e.element.key = k
        · subst own
          simp [NodeElement.key]
        · simp [own]
      rw [within, Name.filter_sortOn total, ← within]
    · intro e e' own own'
      have same := (of_decide_eq_true own).trans (of_decide_eq_true own').symm
      rw [NodeElement.key_injective same]

/-- **Entries are arranged alike in any order**, when no two of one kind have one name and
offset. -/
theorem arrange_congr {entries entries' : List Entry} (p : entries.Perm entries')
    (apart : entries.Pairwise fun x y => x.element.kind = y.element.kind → x.element ≠ y.element) :
    arrange entries = arrange entries' := by
  have distinct : (entries.map fun e => e.element.key).Nodup := by
    refine List.pairwise_map.mpr (apart.imp fun differ same => ?_)
    have same := NodeElement.key_injective same
    exact differ (congrArg NodeElement.kind same) same
  have sorted := Name.sortOn_perm_congr claimLe_totalOrder p distinct
  rw [← sortOn_registersFirst, ← sortOn_registersFirst] at sorted
  unfold registersFirst at sorted
  unfold arrange
  dsimp only
  rw [Name.renameInOrder_congr sorted]

/-- **Shuffled children are arranged alike**, when each of them is built alike. -/
theorem buildItems_alike {parent : String} {outer : Properties} {affix : Affix}
    {children children' : List Item} (h : Shuffled Item.Reordered children children')
    (untied : Untied (children.flatMap (itemElements affix)))
    (each : ∀ c ∈ children, ∀ c', c.Reordered c' →
      Alike Eq (buildItem parent outer affix c) (buildItem parent outer affix c')) :
    Alike (fun entries entries' => arrange entries = arrange entries')
      (buildItems parent outer affix children) (buildItems parent outer affix children') := by
  rw [buildItems_eq, buildItems_eq]
  have built := flatten_alike h.members fun c c' ⟨hc, _, r⟩ => each c hc c' r
  refine built.returned.map fun lists lists' ⟨done, _, p⟩ => ?_
  exact arrange_congr p
    (apart_of_untied (becomes_flatten done fun c _ _ => buildItem_becomes) untied)

/-- **A register or cluster is built alike in any order**, by induction over it. -/
theorem buildItem_alike (item : Item) : ∀ {item' : Item} {parent : String} {outer : Properties}
    {affix : Affix}, item.Reordered item' → ItemUntied affix item →
      Alike Eq (buildItem parent outer affix item) (buildItem parent outer affix item') := by
  induction item using Item.induct with
  | register r =>
      intro item' parent outer affix h untied
      cases h with
      | register h =>
          cases untied with
          | register untied =>
              rw [buildItem, buildItem]
              exact (buildRegister_alike h untied).bind_eq fun built => .refl _
  | cluster info children ih =>
      intro item' parent outer affix h untied
      cases h with
      | cluster pairs p =>
          cases untied with
          | cluster untied inside =>
              rw [buildItem, buildItem]
              refine (Alike.refl _).bind_eq fun offset => ?_
              refine (buildItems_alike ⟨_, pairs, p⟩ untied fun c hc c' r =>
                ih c hc r (inside c hc)).bind fun entries entries' same => ?_
              rw [same]
              exact .refl _

/-! ### Peripherals and devices -/

/-- **The peripherals that a peripheral stands for are its elements.** -/
theorem buildPeripheral_becomes {outer : Properties} {p : Description.Peripheral}
    {built : List Peripheral} (h : buildPeripheral outer p = .ok built) :
    List.Forall₂ (fun e x => Becomes e x.element) (peripheralElements p) built := by
  obtain ⟨entries, interrupts, -, -, placed⟩ := buildPeripheral_ok h
  have elements : peripheralElements p = (peripheralInstances p).map (.ofKey .peripheral) := by
    rw [peripheralElements, peripheralInstances, List.map_flatMap]
  rw [elements, List.forall₂_map_left_iff]
  refine placed.imp ?_
  rintro i _ ⟨small, name, named, rfl⟩
  exact ⟨rfl, named, BitVec.toNat_ofNat .. |>.trans (Nat.mod_eq_of_lt small)⟩

/-- **A peripheral is built alike in any order.** -/
theorem buildPeripheral_alike (outer : Properties) {p p' : Description.Peripheral}
    (h : p.Reordered p') (untied : PeripheralUntied p) :
    Alike Eq (buildPeripheral outer p) (buildPeripheral outer p') := by
  obtain ⟨children, shuffled, rfl⟩ := h
  unfold buildPeripheral
  refine (Alike.refl _).bind_eq fun base => ?_
  refine (buildItems_alike shuffled untied.1 fun c hc c' r =>
    buildItem_alike c r (untied.2 c hc)).bind fun entries entries' same => ?_
  dsimp only
  rw [same]
  exact .refl _

/-- **A description has the same map in any order**, or none in any.  The maps are equal, not only
alike. -/
theorem ofDescription_alike {d d' : Description.Device} (h : d.Reordered d')
    (untied : DeviceUntied d) : Alike Eq (ofDescription d) (ofDescription d') := by
  obtain ⟨peripherals, shuffled, rfl⟩ := h
  unfold ofDescription
  refine (Alike.refl _).bind_eq fun name => ?_
  -- The peripherals are built in some order, and the names are claimed in a canonical one.
  have built := flatten_alike shuffled.members fun p p' ⟨hp, _, r⟩ =>
    buildPeripheral_alike d.properties r (untied.2 p hp)
  refine built.returned.bind fun lists lists' ⟨done, _, perm⟩ => ?_
  have apart := apart_of_untied (becomes_flatten done fun p _ _ => buildPeripheral_becomes) untied.1
  have distinct : (lists.flatten.map fun p => (p.name, p.baseAddress.toNat)).Nodup := by
    refine List.pairwise_map.mpr (apart.imp fun differ same => differ rfl ?_)
    exact congrArg (NodeElement.ofKey .peripheral) same
  dsimp only
  rw [Name.renameInOrder_congr (Name.sortOn_perm_congr Name.natLe_totalOrder.lexLe perm distinct)]
  exact .refl _

end ChipMap.Map
