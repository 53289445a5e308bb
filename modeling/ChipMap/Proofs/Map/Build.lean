import ChipMap.Proofs.Map.Fields

/-!
# Maps are well formed when ranges are

A map is built from the inside out: fields, registers, the level of a node, the clusters that share
this level, peripherals, the device.  Each step has one law here, and **a description whose fields
have a bit each has a well-formed map** (`ofDescription_wellFormed`).

### What is load-bearing

Registers and clusters of a node claim their names together and are sorted apart.  That the two
sorted lists have the names of the one renamed list between them is `perm_names`; everything else
about a level is said of the renamed list.

A node that is well formed stays so under any identifier (`Entry.WellFormed.rename`).  This is why
renaming can come last, when all nodes of a level are known.
-/

namespace ChipMap.Map

open Name (IsIdentifier distinctKey)
open Description (Item Properties ClusterInfo)

/-- **A register or cluster is well formed** with everything inside it, and its name is an
identifier. -/
def Entry.WellFormed : Entry → Prop
  | .register r => r.WellFormed
  | .cluster c => IsIdentifier c.name ∧ LevelWellFormed c.registers c.clusters

theorem Entry.WellFormed.identifier {e : Entry} (h : e.WellFormed) : IsIdentifier e.name := by
  cases e with
  | register r => exact Register.WellFormed.identifier h
  | cluster c => exact h.1

theorem Entry.WellFormed.rename {e : Entry} (h : e.WellFormed) {name : String}
    (identifier : IsIdentifier name) : (e.rename name).WellFormed := by
  cases e with
  | register r =>
      have h : r.WellFormed := h
      exact ⟨identifier, h.size, h.fields, h.apart, h.order, h.disjoint⟩
  | cluster c => exact ⟨identifier, h.2⟩

theorem Entry.name_rename (e : Entry) (name : String) : (e.rename name).name = name := by
  cases e with
  | register r => rfl
  | cluster c => rfl

/-! ### Registers -/

/-- **The registers that a register stands for are well formed.**  All of them have the same
fields. -/
theorem buildRegister_wellFormed {parent : String} {outer : Properties} {affix : Affix}
    {r : Description.Register} {built : List Register} (ranged : ∀ f ∈ r.fields, f.Ranged)
    (h : buildRegister parent outer affix r = .ok built) : ∀ x ∈ built, x.WellFormed := by
  obtain ⟨fields, bounds, hfields, placed⟩ := buildRegister_ok h
  obtain ⟨each, apart, order, disjoint⟩ := buildFields_wellFormed bounds.2 ranged hfields
  intro x hx
  obtain ⟨p, -, name, named, rfl⟩ := exists_of_forall₂ placed.flip hx
  exact ⟨Name.isIdentifier_of_identifier? named, bounds, each, apart, order, disjoint⟩

/-! ### Levels -/

/-- The registers and the clusters among some entries have their names between them. -/
theorem perm_names (entries : List Entry) :
    ((entries.filterMap Entry.register?).map (·.name) ++
      (entries.filterMap Entry.cluster?).map (·.name)).Perm (entries.map Entry.name) := by
  induction entries with
  | nil => exact .nil
  | cons e rest ih =>
      cases e with
      | register r => exact ih.cons r.name
      | cluster c => exact List.perm_middle.trans (ih.cons c.name)

theorem mem_of_register? {entries : List Entry} {r : Register}
    (h : r ∈ entries.filterMap Entry.register?) : .register r ∈ entries := by
  obtain ⟨e, he, hr⟩ := List.mem_filterMap.mp h
  cases e with
  | register r' => exact Option.some.inj hr ▸ he
  | cluster c => cases hr

theorem mem_of_cluster? {entries : List Entry} {c : Cluster}
    (h : c ∈ entries.filterMap Entry.cluster?) : .cluster c ∈ entries := by
  obtain ⟨e, he, hc⟩ := List.mem_filterMap.mp h
  cases e with
  | register r => cases hc
  | cluster c' => exact Option.some.inj hc ▸ he

/-- **Arranged entries are a well-formed level** when each of them is well formed. -/
theorem arrange_wellFormed {entries : List Entry} (h : ∀ e ∈ entries, e.WellFormed) :
    LevelWellFormed (arrange entries).registers (arrange entries).clusters := by
  unfold arrange
  dsimp only
  have first : ∀ e ∈ (entries.filterMap Entry.register?).map Entry.register ++
      (entries.filterMap Entry.cluster?).map Entry.cluster, e.WellFormed := by
    intro e he
    rcases List.mem_append.mp he with he | he
    · obtain ⟨r, hr, rfl⟩ := List.mem_map.mp he
      exact h _ (mem_of_register? hr)
    · obtain ⟨c, hc, rfl⟩ := List.mem_map.mp he
      exact h _ (mem_of_cluster? hc)
  generalize (entries.filterMap Entry.register?).map Entry.register ++
      (entries.filterMap Entry.cluster?).map Entry.cluster = ordered at first
  have each : ∀ e ∈ Name.renameInOrder (Name.lexLe Name.natLe) (fun e => (e.name, e.offset))
      Entry.name Entry.rename ordered, e.WellFormed :=
    Name.forall_mem_renameInOrder fun e he n hn =>
      (first e he).rename (hn (first e he).identifier)
  have keys := @Name.renameInOrder_nodup Entry _ (Name.lexLe Name.natLe)
    (fun e => (e.name, e.offset)) Entry.name Entry.rename ordered Entry.name_rename
  generalize Name.renameInOrder (Name.lexLe Name.natLe) (fun e => (e.name, e.offset))
      Entry.name Entry.rename ordered = unique at each keys
  have registers : ∀ r ∈ unique.filterMap Entry.register?, r.WellFormed := fun r hr =>
    each _ (mem_of_register? hr)
  have clusters : ∀ c ∈ unique.filterMap Entry.cluster?,
      IsIdentifier c.name ∧ LevelWellFormed c.registers c.clusters := fun c hc =>
    each _ (mem_of_cluster? hc)
  -- Names were told apart in one list, and the two kinds of nodes have them between them.
  have between := ((perm_names unique).map distinctKey).nodup_iff.mpr (by rwa [List.map_map])
  rw [List.map_append, List.map_map, List.map_map] at between
  have apart := List.nodup_append.mp between
  refine .level ?_ ?_ ?_ ?_ ?_ ?_
  · exact fun r hr => registers r (Name.mem_sortOn.mp hr)
  · exact fun c hc => (clusters c (Name.mem_sortOn.mp hc)).1
  · exact fun c hc => (clusters c (Name.mem_sortOn.mp hc)).2
  · refine Name.apart_of_nodup ?_ ?_
    · intro n hn
      rcases List.mem_append.mp hn with hn | hn
      · obtain ⟨r, hr, rfl⟩ := List.mem_map.mp hn
        exact (registers r (Name.mem_sortOn.mp hr)).identifier
      · obtain ⟨c, hc, rfl⟩ := List.mem_map.mp hn
        exact (clusters c (Name.mem_sortOn.mp hc)).1
    · have sorted := ((Name.sortOn_perm Name.textLe (·.name) (unique.filterMap Entry.register?)).map
        fun r => distinctKey r.name).append
        ((Name.sortOn_perm Name.textLe (·.name) (unique.filterMap Entry.cluster?)).map
          fun c => distinctKey c.name)
      rw [List.map_append, List.map_map, List.map_map]
      exact sorted.nodup_iff.mpr between
  · exact Name.sortOn_strict Name.textLe_totalOrder (fun r hr => (registers r hr).identifier)
      apart.1 fun a b ha hb other le => Name.bytes_lt_of_textLe ha hb le other
  · exact Name.sortOn_strict Name.textLe_totalOrder (fun c hc => (clusters c hc).1)
      apart.2.1 fun a b ha hb other le => Name.bytes_lt_of_textLe ha hb le other

/-- The entries of some children come from one child each, which stands for all its elements. -/
theorem exists_of_buildItems {parent : String} {outer : Properties} {affix : Affix}
    {children : List Item} {entries : List Entry}
    (h : buildItems parent outer affix children = .ok entries) {e : Entry} (he : e ∈ entries) :
    ∃ c ∈ children, ∃ own, buildItem parent outer affix c = .ok own ∧ e ∈ own := by
  obtain ⟨lists, hlists, rfl⟩ := buildItems_ok h
  obtain ⟨own, hown, he⟩ := List.mem_flatten.mp he
  obtain ⟨c, hc, built⟩ := exists_of_forall₂ hlists.flip hown
  exact ⟨c, hc, own, built, he⟩

/-- **What a child stands for is well formed**, by induction over the child.  The names of its
siblings are not needed for that. -/
theorem buildItem_wellFormed (item : Item) : ∀ {parent : String} {outer : Properties}
    {affix : Affix} {entries : List Entry}, item.Ranged →
      buildItem parent outer affix item = .ok entries → ∀ e ∈ entries, e.WellFormed := by
  induction item using Item.induct with
  | register r =>
      intro parent outer affix entries ranged h e he
      obtain ⟨built, hbuilt, rfl⟩ := buildItem_register_ok h
      obtain ⟨x, hx, rfl⟩ := List.mem_map.mp he
      exact buildRegister_wellFormed ranged.of_register hbuilt x hx
  | cluster info children ih =>
      intro parent outer affix entries ranged h e he
      obtain ⟨inner, hinner, placed⟩ := buildItem_cluster_ok h
      obtain ⟨p, -, name, named, rfl⟩ := exists_of_forall₂ placed.flip he
      refine ⟨Name.isIdentifier_of_identifier? named, arrange_wellFormed fun e he => ?_⟩
      obtain ⟨c, hc, own, hown, he⟩ := exists_of_buildItems hinner he
      exact ih c hc (ranged.of_cluster.2 c hc) hown e he

/-! ### Peripherals and devices -/

/-- Interrupts in their canonical order whose names differ are strictly in order. -/
theorem Interrupt.before_of_le (a b : Interrupt) (ha : IsIdentifier a.name)
    (hb : IsIdentifier b.name) (other : a.name ≠ b.name)
    (h : Name.lexLe Name.textLe (a.value, a.name) (b.value, b.name) = true) : a.Before b :=
  Name.lt_of_lexLe ha hb other h

/-- **The interrupts of a peripheral** are apart and in order, and their names are identifiers. -/
theorem buildInterrupts_ok {p : Description.Peripheral} {interrupts : List Interrupt}
    (h : buildInterrupts p = .ok interrupts) :
    (∀ i ∈ interrupts, IsIdentifier i.name) ∧ Name.Apart (interrupts.map (·.name)) ∧
      interrupts.Pairwise Interrupt.Before := by
  obtain ⟨built, hbuilt, h⟩ := bind_eq_ok.mp h
  obtain rfl := Except.ok.inj h
  have each : ∀ i ∈ (sortInterrupts built).eraseReps, IsIdentifier i.name := by
    intro i hi
    obtain ⟨d, -, hd⟩ := exists_of_mapM_eq_ok hbuilt (Name.mem_sortOn.mp (mem_eraseReps.mp hi))
    unfold buildInterrupt at hd
    split at hd
    · cases hd
    · obtain ⟨name, hname, hd⟩ := bind_eq_ok.mp hd
      obtain rfl := Except.ok.inj hd
      exact isIdentifier_of_identifier hname
  exact Name.sortOn_renameInOrder Name.textLe_totalOrder.lexLe (fun _ _ => rfl)
    (fun _ hi => hi) (fun _ _ _ hn _ => hn) each Interrupt.before_of_le

theorem Peripheral.WellFormed.rename {p : Peripheral} (h : p.WellFormed) {name : String}
    (identifier : IsIdentifier name) : Peripheral.WellFormed { p with name } :=
  ⟨identifier, h.level, h.interruptIdentifier, h.interruptsApart, h.interruptOrder⟩

/-- **The peripherals that a peripheral stands for are well formed.** -/
theorem buildPeripheral_wellFormed {outer : Properties} {p : Description.Peripheral}
    {built : List Peripheral} (ranged : ∀ c ∈ p.children, c.Ranged)
    (h : buildPeripheral outer p = .ok built) : ∀ x ∈ built, x.WellFormed := by
  obtain ⟨entries, interrupts, hentries, hinterrupts, placed⟩ := buildPeripheral_ok h
  obtain ⟨identifiers, apart, order⟩ := buildInterrupts_ok hinterrupts
  have level : LevelWellFormed (arrange entries).registers (arrange entries).clusters := by
    refine arrange_wellFormed fun e he => ?_
    obtain ⟨c, hc, own, hown, he⟩ := exists_of_buildItems hentries he
    exact buildItem_wellFormed c (ranged c hc) hown e he
  intro x hx
  obtain ⟨place, -, -, name, named, rfl⟩ := exists_of_forall₂ placed.flip hx
  exact ⟨Name.isIdentifier_of_identifier? named, level, identifiers, apart, order⟩

/-- **The map of a description whose fields have a bit each is well formed.** -/
theorem ofDescription_wellFormed {d : Description.Device} {device : Device} (ranged : d.Ranged)
    (h : ofDescription d = .ok device) : device.WellFormed := by
  obtain ⟨lists, named, hlists, arranged⟩ := ofDescription_ok h
  have each : ∀ p ∈ lists.flatten, p.WellFormed := by
    intro p hp
    obtain ⟨list, hlist, hp⟩ := List.mem_flatten.mp hp
    obtain ⟨described, hdescribed, hbuilt⟩ := exists_of_forall₂ hlists.flip hlist
    exact buildPeripheral_wellFormed (ranged described hdescribed) hbuilt p hp
  obtain ⟨all, apart, order⟩ := Name.sortOn_renameInOrder Name.textLe_totalOrder
    (fun _ _ => rfl) (fun p hp => hp.identifier) (fun p _ n hn hp => hp.rename hn) each
    fun a b ha hb other le => Name.bytes_lt_of_textLe ha hb le other
  rw [arrangePeripherals] at arranged
  rw [← arranged] at all apart order
  exact ⟨Name.isIdentifier_of_identifier? named, all, apart, order⟩

end ChipMap.Map
