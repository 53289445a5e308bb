import ChipMap.Proofs.Map.WellFormed
import ChipMap.Proofs.Source.Stands

/-!
# The types that shaping gives out

While it makes slots and structs, shaping gives out a name for every struct and one for every
bitfield type, and notes the latter with their registers in a table.  **Each step leaves the table
sound** (`TypeTable.Sound`) and what it makes refers to types of the table only (`Makes`).

### What is load-bearing

A step may note more types but never takes one back, so what refers to the types of a table refers
to those of every later one (`Slot.Sound.mono`); this is what lets steps be put one after the other
(`Makes.bind`).

A name may be declared when it has a letter or a digit to begin with, whatever the cases do to it
later.  So the paths that names are claimed for only have to hold one alphanumeric character, and
well-formed names do.
-/

namespace ChipMap.Source

open Map (Register Cluster Peripheral Vector LevelWellFormed)
open Name (Claimed IsIdentifier IsDeclarable LeadsDigit distinctKey)

/-! ### Sound tables -/

/-- **A table of types hangs together**: its types may be declared and have distinct keys that were
claimed, and each describes the fields of a well-formed register. -/
structure TypeTable.Sound (t : TypeTable) : Prop where
  declarable : ∀ b ∈ t.bitfields, IsDeclarable b.name
  claimed : ∀ b ∈ t.bitfields, distinctKey b.name ∈ t.typeNames.keys
  distinct : (t.bitfields.map fun b => distinctKey b.name).Nodup
  wellFormed : ∀ b ∈ t.bitfields, b.register.WellFormed

theorem TypeTable.Sound.empty : TypeTable.empty.Sound where
  declarable := fun _ h => nomatch h
  claimed := fun _ h => nomatch h
  distinct := List.nodup_nil
  wellFormed := fun _ h => nomatch h

/-- A bitfield type that a member names is one of some types, and has the storage of the member. -/
def SlotKind.Typed (bitfields : List Bitfield) : SlotKind → Prop
  | .register _ _ storage bitfield _ =>
    ∀ name ∈ bitfield, ∃ b ∈ bitfields, b.name = name ∧ b.storage = storage
  | .block _ _ => True

/-- **A slot that can become a member**: its name may be declared and is that of no reservation, and
its type is known. -/
structure Slot.Sound (bitfields : List Bitfield) (s : Slot) : Prop where
  declarable : IsDeclarable s.name
  leadsDigit : LeadsDigit s.name
  typed : s.kind.Typed bitfields

/-- **A struct that can be declared**, with slots that have distinct keys. -/
structure Block.Sound (bitfields : List Bitfield) (b : Block) : Prop where
  declarable : IsDeclarable b.name
  slots : ∀ s ∈ b.slots, s.Sound bitfields
  keys : (b.slots.map fun s => distinctKey s.name).Nodup

section Mono

variable {bs bs' : List Bitfield}

theorem SlotKind.Typed.mono (more : bs ⊆ bs') {k : SlotKind} (h : k.Typed bs) : k.Typed bs' := by
  cases k with
  | register _ _ _ _ _ =>
      intro name hname
      obtain ⟨b, hb, same⟩ := h name hname
      exact ⟨b, more hb, same⟩
  | block _ _ => trivial

theorem Slot.Sound.mono (more : bs ⊆ bs') {s : Slot} (h : s.Sound bs) : s.Sound bs' :=
  ⟨h.declarable, h.leadsDigit, h.typed.mono more⟩

theorem Block.Sound.mono (more : bs ⊆ bs') {b : Block} (h : b.Sound bs) : b.Sound bs' :=
  ⟨h.declarable, fun s hs => (h.slots s hs).mono more, h.keys⟩

end Mono

/-! ### Steps of shaping -/

/-- **A step of shaping** leaves a table sound, takes no type back, and makes what `P` says. -/
structure Makes {α : Type} (c : Shaping α) (P : List Bitfield → α → Prop) : Prop where
  sound : ∀ t : TypeTable, t.Sound → (c.run t).2.Sound
  grows : ∀ t : TypeTable, t.bitfields ⊆ (c.run t).2.bitfields
  made : ∀ t : TypeTable, t.Sound → P (c.run t).2.bitfields (c.run t).1

namespace Makes

variable {α β : Type} {P : List Bitfield → α → Prop} {R : List Bitfield → β → Prop}

theorem pure {a : α} (h : ∀ bs, P bs a) : Makes (Pure.pure a) P where
  sound _ sound := sound
  grows _ := List.Subset.refl _
  made _ _ := h _

/-- **Steps one after the other**: what the first one made stays what it is while the table
grows. -/
theorem bind {c : Shaping α} {f : α → Shaping β} (first : Makes c P)
    (mono : ∀ {bs bs' a}, bs ⊆ bs' → P bs a → P bs' a)
    (next : ∀ a, Makes (f a) fun bs b => P bs a → R bs b) : Makes (c >>= f) R where
  sound t sound := (next _).sound _ (first.sound t sound)
  grows t := List.Subset.trans (first.grows t) ((next _).grows _)
  made t sound :=
    (next _).made _ (first.sound t sound) (mono ((next _).grows _) (first.made t sound))

theorem mapM {f : α → Shaping β} {items : List α} (each : ∀ x ∈ items, Makes (f x) R)
    (mono : ∀ {bs bs' b}, bs ⊆ bs' → R bs b → R bs' b) :
    Makes (items.mapM f) fun bs made => ∀ b ∈ made, R bs b := by
  induction items with
  | nil => exact pure fun _ _ h => nomatch h
  | cons x rest ih =>
      rw [List.mapM_cons]
      refine (each x List.mem_cons_self).bind mono fun b => ?_
      refine (ih fun y hy => each y (List.mem_cons_of_mem _ hy)).bind
        (fun more h y hy => mono more (h y hy)) fun others => ?_
      refine pure fun bs hothers hb y hy => ?_
      rcases List.mem_cons.mp hy with rfl | hy
      · exact hb
      · exact hothers y hy

end Makes

/-! ### The steps -/

theorem claimStruct_makes {path : String} (letters : path.toList.any Char.isAlphanum = true) :
    Makes (claimStruct path) fun _ name => IsDeclarable name where
  sound t sound := by
    rw [claimStruct_run]
    exact ⟨sound.declarable, sound.claimed, sound.distinct, sound.wellFormed⟩
  grows t := by
    rw [claimStruct_run]
    exact List.Subset.refl _
  made t _ := by
    rw [claimStruct_run]
    dsimp only
    exact Name.isCase_camelCase.declarable (Name.any_isAlphanum_claim letters t.structNames)

/-- The type of a register with fields is noted under the name that is claimed for it. -/
theorem claimBitfield_run {r : Register} (h : hasBitfield r = true) (lead : String) (t : TypeTable) :
    (claimBitfield lead r).run t =
      let claimed := t.typeNames.claim (lead ++ r.name)
      (some (Name.camelCase claimed.1),
        { t with
          typeNames := claimed.2
          bitfields := t.bitfields ++ [⟨Name.camelCase claimed.1, .ofSize r.size, r⟩] }) := by
  rw [claimBitfield, if_pos h]
  rfl

/-- **A type is noted** under a name whose key is new. -/
theorem TypeTable.Sound.note {t : TypeTable} (sound : t.Sound) {names : Claimed} {b : Bitfield}
    (grows : ∀ key ∈ t.typeNames.keys, key ∈ names.keys)
    (claimed : distinctKey b.name ∈ names.keys ∧ distinctKey b.name ∉ t.typeNames.keys)
    (declarable : IsDeclarable b.name) (wellFormed : b.register.WellFormed) :
    TypeTable.Sound { t with typeNames := names, bitfields := t.bitfields ++ [b] } where
  declarable := by simpa [or_imp, forall_and] using ⟨sound.declarable, declarable⟩
  claimed := by
    simpa [or_imp, forall_and] using ⟨fun c hc => grows _ (sound.claimed c hc), claimed.1⟩
  distinct := by
    rw [List.map_append, List.map_singleton, List.nodup_append]
    refine ⟨sound.distinct, List.nodup_singleton _, ?_⟩
    rintro _ old _ own rfl
    obtain ⟨c, hc, same⟩ := List.mem_map.mp old
    rw [List.mem_singleton] at own
    exact claimed.2 (own ▸ same ▸ sound.claimed c hc)
  wellFormed := by simpa [or_imp, forall_and] using ⟨sound.wellFormed, wellFormed⟩

/-- **A register notes one type at most.** -/
theorem claimBitfield_makes {r : Register} (wellFormed : r.WellFormed) (lead : String) :
    Makes (claimBitfield lead r) fun bs noted =>
      ∀ name ∈ noted, ∃ b ∈ bs, b.name = name ∧ b.storage = .ofSize r.size := by
  by_cases h : hasBitfield r = true
  · refine ⟨fun t sound => ?_, fun t => ?_, fun t _ => ?_⟩
    · have letters : (lead ++ r.name).toList.any Char.isAlphanum = true := by
        rw [String.toList_append, List.any_append, wellFormed.identifier.2.1, Bool.or_true]
      obtain ⟨grows, claimed, -⟩ := Named.claim t.typeNames (lead ++ r.name)
      have claimed := claimed _ List.mem_cons_self
      have declarable :=
        Name.isCase_camelCase.declarable (Name.any_isAlphanum_claim letters t.typeNames)
      rw [claimBitfield_run h]
      dsimp only
      generalize Name.camelCase (t.typeNames.claim (lead ++ r.name)).1 = name at claimed declarable
      exact sound.note grows claimed declarable wellFormed
    · rw [claimBitfield_run h]
      exact List.subset_append_left _ _
    · rw [claimBitfield_run h]
      dsimp only
      generalize Name.camelCase (t.typeNames.claim (lead ++ r.name)).1 = name
      rintro _ ⟨⟩
      exact ⟨_, List.mem_append_right _ List.mem_cons_self, rfl, rfl⟩
  · rw [claimBitfield, if_neg h]
    exact .pure fun _ _ h => nomatch h

section Arrays

variable {name : String} {offset : Word} {size : Nat} {vector : Option Vector}
variable {kind : Option Nat → SlotKind} {bs : List Bitfield}

/-- The slots of a node have its name, or that name and the number of an element. -/
theorem sound_of_mem_arraySlots (letters : name.toList.any Char.isAlphanum = true)
    (typed : ∀ n, (kind n).Typed bs) {s : Slot}
    (h : s ∈ arraySlots name offset size vector kind) : s.Sound bs := by
  obtain ⟨suffix, count, named, kinded⟩ := exists_of_mem_arraySlots h
  have letters := Name.any_isAlphanum_append letters suffix
  have declarable := Name.isCase_snakeCase.declarable letters
  have leads := Name.snakeCase_leadsDigit letters
  rw [← named] at declarable leads
  exact ⟨declarable, leads, kinded ▸ typed count⟩

end Arrays

/-- **The slots of a register.** -/
theorem registerSlots_makes {r : Register} (wellFormed : r.WellFormed) (lead : String) :
    Makes (registerSlots lead r) fun bs slots => ∀ s ∈ slots, s.Sound bs := by
  refine (claimBitfield_makes wellFormed lead).bind ?_ fun bitfield => .pure fun bs known s hs => ?_
  · intro bs bs' noted more known name hname
    obtain ⟨b, hb, same⟩ := known name hname
    exact ⟨b, more hb, same⟩
  · refine sound_of_mem_arraySlots wellFormed.identifier.2.1 (fun _ => ?_) hs
    exact known

theorem map_name_nameMembers (slots : List Slot) :
    (nameMembers slots).map (·.name) = Name.claimAll (slots.map (·.name)) := by
  have length : (Name.claimAll (slots.map (·.name))).length ≤ slots.length := by
    simp [Name.claimAll]
  calc (nameMembers slots).map (·.name)
      = (slots.zip (Name.claimAll (slots.map (·.name)))).map Prod.snd := by
        rw [nameMembers, List.map_zipWith, List.zip_eq_zipWith, List.map_zipWith]
    _ = Name.claimAll (slots.map (·.name)) := List.map_snd_zip length

/-- **Slots that are named as members** stay sound, and their keys differ. -/
theorem nameMembers_sound {bs : List Bitfield} {slots : List Slot}
    (sound : ∀ s ∈ slots, s.Sound bs) :
    (∀ s ∈ nameMembers slots, s.Sound bs) ∧
      ((nameMembers slots).map fun s => distinctKey s.name).Nodup := by
  have given := map_name_nameMembers slots
  constructor
  · intro s hs
    obtain ⟨wanted, hwanted, same⟩ := exists_of_forall₂ (nameMembers_renamed slots) hs
    have name : IsDeclarable s.name ∧ LeadsDigit s.name := by
      have member := List.mem_map_of_mem (f := (·.name)) hs
      rw [given] at member
      refine Claimed.forall_mem_claimList (P := fun n => IsDeclarable n ∧ LeadsDigit n)
        (fun claimed n h => ⟨h.1.choose claimed, h.2.choose h.1.1 claimed⟩) .empty ?_ _ member
      intro n hn
      obtain ⟨t, ht, rfl⟩ := List.mem_map.mp hn
      exact ⟨(sound t ht).declarable, (sound t ht).leadsDigit⟩
    exact ⟨name.1, name.2, same ▸ (sound wanted hwanted).typed⟩
  · have keys := Name.claimAll_nodup (slots.map (·.name))
    rw [← given, List.map_map] at keys
    exact keys

/-- Members have distinct names, as they have distinct keys. -/
theorem nameMembers_nodup (slots : List Slot) : ((nameMembers slots).map (·.name)).Nodup := by
  rw [map_name_nameMembers]
  exact (Name.claimAll_nodup _).of_map _

/-- What shaping makes of clusters: slots and structs that refer to these types only. -/
def SoundParts (bs : List Bitfield) (made : List Slot × List Block) : Prop :=
  (∀ s ∈ made.1, s.Sound bs) ∧ ∀ b ∈ made.2, b.Sound bs

theorem SoundParts.mono {bs bs' : List Bitfield} {made : List Slot × List Block} (more : bs ⊆ bs')
    (h : SoundParts bs made) : SoundParts bs' made :=
  ⟨fun s hs => (h.1 s hs).mono more, fun b hb => (h.2 b hb).mono more⟩

theorem soundParts_nil (bs : List Bitfield) : SoundParts bs ([], []) :=
  ⟨List.forall_mem_nil _, List.forall_mem_nil _⟩

/-- **The structs of a node** and of the clusters in it. -/
theorem shapeBlock_makes {path : String} (letters : path.toList.any Char.isAlphanum = true)
    {registers : List Register} (wellFormed : ∀ r ∈ registers, r.WellFormed)
    {inner : Shaping (List Slot × List Block)} (parts : Makes inner SoundParts) (lead : String)
    (stride : Option Nat) :
    Makes (shapeBlock path lead registers stride inner) fun bs blocks =>
      ∀ b ∈ blocks, b.Sound bs := by
  have own := Makes.mapM (fun r hr => registerSlots_makes (wellFormed r hr) lead)
    fun more h s hs => (h s hs).mono more
  refine (claimStruct_makes letters).bind (fun _ h => h) fun name => ?_
  refine own.bind (fun more h slots hslots s hs => (h slots hslots s hs).mono more) fun own => ?_
  refine parts.bind SoundParts.mono ?_
  rintro ⟨nested, blocks⟩
  dsimp only
  split
  · exact .pure fun _ _ _ _ _ h => nomatch h
  · refine .pure fun bs hinner hown hname b hb => ?_
    rcases List.mem_cons.mp hb with rfl | hb
    · have wanted : ∀ s ∈ own.flatten ++ nested, s.Sound bs := by
        intro s hs
        rcases List.mem_append.mp hs with hs | hs
        · obtain ⟨slots, hslots, hs⟩ := List.mem_flatten.mp hs
          exact hown slots hslots s hs
        · exact hinner.1 s hs
      have members := nameMembers_sound wanted
      exact ⟨hname, members.1, members.2⟩
    · exact hinner.2 b hb

/-- **The slots of some clusters and the structs behind them.** -/
theorem shapeClusters_makes (clusters : List Cluster) : ∀ {path : String},
    path.toList.any Char.isAlphanum = true → ∀ lead : String,
    (∀ c ∈ clusters, IsIdentifier c.name ∧ LevelWellFormed c.registers c.clusters) →
      Makes (shapeClusters path lead clusters) SoundParts := by
  induction clusters using Map.clusters_induct with
  | nil =>
      intro path letters lead levels
      rw [shapeClusters]
      exact .pure soundParts_nil
  | cons c rest inner others =>
      intro path letters lead levels
      obtain ⟨identifier, level⟩ := levels c List.mem_cons_self
      have own : Makes (shapeCluster path lead c) SoundParts := by
        obtain ⟨name, description, offset, vector, registers, clusters⟩ := c
        rw [shapeCluster]
        -- The path of a cluster begins with that of the node around it, and so has a letter or a
        -- digit.
        have innerLetters : (path ++ "_" ++ name).toList.any Char.isAlphanum = true :=
          Name.any_isAlphanum_append (Name.any_isAlphanum_append letters _) _
        have nested := inner innerLetters (lead ++ name ++ "_") fun c hc => level.cluster hc
        refine (shapeBlock_makes innerLetters (fun r hr => level.register hr) nested _ _).bind
          (fun more h b hb => (h b hb).mono more) fun blocks => ?_
        cases blocks with
        | nil => exact .pure fun bs _ => soundParts_nil bs
        | cons block behind =>
            refine .pure fun bs sound => ⟨fun s hs => ?_, sound⟩
            refine sound_of_mem_arraySlots identifier.2.1 (fun _ => ?_) hs
            trivial
      rw [shapeClusters]
      refine own.bind SoundParts.mono ?_
      rintro ⟨slots, blocks⟩
      have later := others letters lead fun c hc => levels c (List.mem_cons_of_mem _ hc)
      refine later.bind SoundParts.mono ?_
      rintro ⟨otherSlots, otherBlocks⟩
      refine .pure fun bs later own => ⟨fun s hs => ?_, fun b hb => ?_⟩
      · exact (List.mem_append.mp hs).elim (own.1 s) (later.1 s)
      · exact (List.mem_append.mp hb).elim (own.2 b) (later.2 b)

/-! ### Merged slots -/

/-- A slot with another one folded in keeps the type of its fields. -/
theorem Slot.Sound.absorb {bs : List Bitfield} {s t m : Slot} (h : s.absorb? t = some m)
    (sound : s.Sound bs) : m.Sound bs := by
  obtain ⟨-, _, _, _, _, _, _, _, kind, -, rfl⟩ := Slot.absorb?_inv h
  have typed := sound.typed
  rw [kind] at typed
  exact ⟨sound.declarable, sound.leadsDigit, typed⟩

/-- Merged slots have the names of the first of those that they are made of. -/
theorem mergeBehind_names {last : Slot} {slots : List Slot} :
    ((mergeBehind last slots).map (·.name)).Sublist ((last :: slots).map (·.name)) := by
  induction slots generalizing last with
  | nil => exact List.Sublist.refl _
  | cons s rest ih =>
      rw [mergeBehind]
      cases merged : last.absorb? s with
      | some m =>
          have names := @ih m
          rw [List.map_cons, name_of_absorb? merged] at names
          exact names.trans ((List.sublist_cons_self _ _).cons_cons _)
      | none => exact ih.cons_cons _

/-- The slots that are placed have distinct names when the slots of the struct have. -/
theorem merged_names_nodup {slots : List Slot} (distinct : (slots.map (·.name)).Nodup) :
    ((mergeSlots (sortSlots slots)).map (·.name)).Nodup := by
  have perm : (sortSlots slots).Perm slots := Name.sortOn_perm _ _ _
  have names : ((sortSlots slots).map (·.name)).Nodup :=
    (perm.map (·.name)).nodup_iff.mpr distinct
  cases sorted : sortSlots slots with
  | nil => exact List.nodup_nil
  | cons first rest =>
      rw [sorted] at names
      exact mergeBehind_names.nodup names

/-- **The slots that are placed** in a struct are sound, and their names differ. -/
theorem Block.Sound.merged {bs : List Bitfield} {b : Block} (h : b.Sound bs) :
    (∀ s ∈ mergeSlots (sortSlots b.slots), s.Sound bs) ∧
      ((mergeSlots (sortSlots b.slots)).map (·.name)).Nodup := by
  refine ⟨forall_mem_merged Slot.Sound.absorb h.slots, merged_names_nodup ?_⟩
  refine List.Nodup.of_map distinctKey ?_
  rw [List.map_map]
  exact h.keys

/-- **The types of a peripheral hang together**, and its structs refer to these types only. -/
theorem shapePeripheral_types {p : Peripheral} (wellFormed : p.WellFormed) :
    ∃ table : TypeTable, table.Sound ∧ table.bitfields = (shapePeripheral p).bitfields ∧
      ∀ b ∈ (shapePeripheral p).blocks, b.Sound (shapePeripheral p).bitfields := by
  have letters := wellFormed.identifier.2.1
  have nested := shapeClusters_makes p.clusters letters "" fun c hc => wellFormed.level.cluster hc
  have made := shapeBlock_makes letters (fun r hr => wellFormed.level.register hr) nested "" none
  exact ⟨_, made.sound _ .empty, rfl, made.made _ .empty⟩

end ChipMap.Source
