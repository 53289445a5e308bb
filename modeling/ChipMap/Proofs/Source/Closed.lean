import ChipMap.Proofs.Source.Scopes

/-!
# References of the produced source

A member names the bitfield type of its register or the struct of its cluster, and an instance names
the module, the address and the struct of its peripheral.  **Every name that is used is declared
exactly once where it is looked up** (`ModuleDecl.Closed`, `Instance.Resolved`).

### What is load-bearing

Types are noted while slots are made, so a type that a slot names is in the table at the end, with
the storage of the slot (`Block.Sound`); a merged slot keeps the type of the first of its registers
and has its storage.  A cluster hands on a slot only together with the struct that the slot names
(`Shaped.known`), and a node that is left out takes its slots and its structs with it.

A module is told apart by its name, and by the name of its file where it has one.  Both are the name
of a peripheral in snake case, which no other peripheral of a well-formed map has.
-/

namespace ChipMap.Source

open Map (Device Peripheral Register Cluster)

/-! ### Structs -/

/-- The struct that a member names is one of some structs. -/
def SlotKind.Known (blocks : List Block) : SlotKind → Prop
  | .register _ _ _ _ _ => True
  | .block name _ => ∃ b ∈ blocks, b.name = name

/-- Slots that name some of these structs only, as the slots of the structs do themselves.  This
passes through nesting where either part alone would not. -/
structure Knows (blocks : List Block) (slots : List Slot) : Prop where
  slots : ∀ s ∈ slots, s.kind.Known blocks
  blocks : ∀ b ∈ blocks, ∀ s ∈ b.slots, s.kind.Known blocks

theorem SlotKind.Known.mono {blocks blocks' : List Block} (more : blocks ⊆ blocks') {k : SlotKind}
    (h : k.Known blocks) : k.Known blocks' := by
  cases k with
  | register _ _ _ _ _ => trivial
  | block name count =>
      obtain ⟨b, hb, same⟩ := h
      exact ⟨b, more hb, same⟩

theorem SlotKind.Like.known {blocks : List Block} {k k' : SlotKind} (h : k.Like k')
    (known : k'.Known blocks) : k.Known blocks := by
  cases h with
  | refl => exact known
  | register => trivial

theorem Knows.append {blocks blocks' : List Block} {slots slots' : List Slot}
    (h : Knows blocks slots) (h' : Knows blocks' slots') :
    Knows (blocks ++ blocks') (slots ++ slots') where
  slots s hs := by
    rcases List.mem_append.mp hs with hs | hs
    · exact (h.slots s hs).mono (List.subset_append_left _ _)
    · exact (h'.slots s hs).mono (List.subset_append_right _ _)
  blocks b hb s hs := by
    rcases List.mem_append.mp hb with hb | hb
    · exact (h.blocks b hb s hs).mono (List.subset_append_left _ _)
    · exact (h'.blocks b hb s hs).mono (List.subset_append_right _ _)

/-- **The structs of a node** name structs behind them only. -/
theorem BlockShaped.known {registers : List Register} {stride : Option Nat} {nested : List Slot}
    {inner blocks : List Block} (h : BlockShaped registers stride nested inner blocks)
    (knows : Knows inner nested) : ∀ b ∈ blocks, ∀ s ∈ b.slots, s.kind.Known blocks := by
  cases h with
  | empty => exact fun b hb => nomatch hb
  | @block own _ _ _ shaped slots _ _ =>
      intro b hb s hs
      rcases List.mem_cons.mp hb with rfl | hb
      · subst slots
        obtain ⟨wanted, hwanted, same⟩ := exists_of_forall₂ (nameMembers_renamed _) hs
        rw [same]
        rcases List.mem_append.mp hwanted with hwanted | hwanted
        · obtain ⟨slots, hslots, hwanted⟩ := List.mem_flatten.mp hwanted
          obtain ⟨r, -, bitfield, rfl⟩ := exists_of_forall₂ shaped.flip hslots
          obtain ⟨-, count, -, kind⟩ := exists_of_mem_arraySlots hwanted
          dsimp only
          rw [kind]
          trivial
        · exact (knows.slots wanted hwanted).mono (List.subset_cons_self _ _)
      · exact (knows.blocks b hb s hs).mono (List.subset_cons_self _ _)

/-- **A cluster hands on its slots together with the struct that they name.** -/
theorem Shaped.known {clusters : List Cluster} {slots : List Slot} {blocks : List Block}
    (h : Shaped clusters slots blocks) : Knows blocks slots := by
  induction h with
  | nil => exact ⟨(fun _ h => nomatch h), (fun _ h => nomatch h)⟩
  | @cons c rest nested others inner blocks otherBlocks _ own _ innerKnows restKnows =>
      refine Knows.append ⟨fun s hs => ?_, own.known innerKnows⟩ restKnows
      cases blocks with
      | nil => cases hs
      | cons block behind =>
          obtain ⟨-, count, -, kind⟩ := exists_of_mem_arraySlots hs
          rw [kind]
          exact ⟨block, List.mem_cons_self, rfl⟩

/-! ### Modules -/

/-- The names of the bitfield types of a module, of all storages together. -/
def ModuleDecl.typeNames (m : ModuleDecl) : List String :=
  (m.groups.flatMap (·.types)).map (·.name)

def ModuleDecl.structNames (m : ModuleDecl) : List String := m.structs.map (·.name)

/-- **What a member names is declared** in the module, exactly once: a bitfield type in the group of
the storage of the member, and a struct among the structs. -/
inductive SlotKind.Resolved (m : ModuleDecl) : SlotKind → Prop
  | plain {readable writable : Bool} {storage : Storage} {count : Option Nat} :
    Resolved m (.register readable writable storage none count)
  | bitfield {readable writable : Bool} {g : BitfieldGroup} {t : BitfieldDecl}
    {count : Option Nat} :
    g ∈ m.groups → t ∈ g.types → m.typeNames.count t.name = 1 →
      Resolved m (.register readable writable g.storage (some t.name) count)
  | struct {d : StructDecl} {count : Option Nat} :
    d ∈ m.structs → m.structNames.count d.name = 1 → Resolved m (.block d.name count)

/-- **A module is closed**: what its members name is declared in it. -/
def ModuleDecl.Closed (m : ModuleDecl) : Prop :=
  ∀ d ∈ m.structs, ∀ s, .field s ∈ d.entries → s.kind.Resolved m

/-- **The module of a well-formed peripheral is closed.** -/
theorem ofPeripheral_closed {p : Peripheral} (wellFormed : p.WellFormed) :
    (ModuleDecl.ofPeripheral p).Closed := by
  have scopes := ofPeripheral_scoped wellFormed
  obtain ⟨nested, inner, shaped, own, -⟩ := shapePeripheral_shaped p
  obtain ⟨table, -, bitfields, sound⟩ := shapePeripheral_types wellFormed
  intro d hd s hs
  obtain ⟨b, hb, rfl⟩ := List.mem_map.mp hd
  obtain ⟨t, ht, like⟩ := exists_like_of_field hs
  -- A member is like a slot of its struct, and what the slot names is known.
  have known := like.kind.known (own.known shaped.known b hb t ht)
  have typed := ((sound b hb).merged.1 s (mem_of_field (field_mem_iff.mp hs))).typed
  cases kind : s.kind with
  | register readable writable storage bitfield count =>
      cases bitfield with
      | none => exact .plain
      | some name =>
          rw [kind] at typed
          obtain ⟨noted, hnoted, rfl, rfl⟩ := typed name rfl
          obtain ⟨g, hg, storage, declared⟩ := exists_group hnoted
          rw [← storage]
          refine .bitfield hg declared ?_
          exact List.count_eq_one_of_mem scopes.types.distinct
            (List.mem_map_of_mem (List.mem_flatMap.mpr ⟨g, hg, declared⟩))
  | block name count =>
      rw [kind] at known
      obtain ⟨block, hblock, rfl⟩ := known
      have declared : block.declaration ∈ (ModuleDecl.ofPeripheral p).structs :=
        List.mem_map_of_mem hblock
      rw [← declaration_name]
      exact .struct declared
        (List.count_eq_one_of_mem scopes.structs.distinct (List.mem_map_of_mem declared))

/-! ### Instances -/

/-- An instance names a module, and in it the address and a struct.  Its texts are put together from
just these names. -/
structure Instance.Names (i : Instance) (m : ModuleDecl) (s : StructDecl) : Prop where
  pointer : i.pointer = "*const " ++ m.name ++ "::regs::" ++ s.name
  value : i.value = m.name ++ "::" ++ m.address.name ++ " as " ++ i.pointer

/-- **The file with the instances declares the module** of a peripheral: it holds the module, or it
names the module and one other file has the name and the lines of it. -/
def Declares (d : Device) (o : Options) (ps : List Peripheral) (p : Peripheral) : Prop :=
  ∃ root units, fileLines d o ps = root :: units ∧ pointerLines d o ps <:+ root.lines ∧
    match o.arrangement with
    | .combined => inlineModule o.visibility.keyword p <:+: root.lines
    | .perPeripheral =>
      line (o.visibility.keyword ++ "mod " ++ Name.snakeCase p.name ++ ";") ∈ root.lines ∧
        ⟨fileName (Name.snakeCase p.name), moduleLines d p⟩ ∈ units ∧
        ((fileLines d o ps).map (·.name)).count (fileName (Name.snakeCase p.name)) = 1

/-- **What an instance names is declared**: its module once among those of the file, and in the
module its struct once. -/
def Instance.Resolved (d : Device) (o : Options) (ps : List Peripheral) (i : Instance) : Prop :=
  ∃ p ∈ ps, Declares d o ps p ∧
    ((ps.map ModuleDecl.ofPeripheral).map (·.name)).count (ModuleDecl.ofPeripheral p).name = 1 ∧
    ∃ s ∈ (ModuleDecl.ofPeripheral p).structs, i.Names (ModuleDecl.ofPeripheral p) s ∧
      (ModuleDecl.ofPeripheral p).structNames.count s.name = 1

/-- **The references of exported files**: those of the members of each module, and those of the
instances. -/
structure FilesClosed (d : Device) (o : Options) (ps : List Peripheral) : Prop where
  modules : ∀ p ∈ ps, (ModuleDecl.ofPeripheral p).Closed
  instances : ∀ i ∈ ps.filterMap Instance.ofPeripheral?, i.Resolved d o ps

/-- The instance of a peripheral names the first struct of its module. -/
theorem exists_names {p : Peripheral} {i : Instance} (h : Instance.ofPeripheral? p = some i) :
    ∃ s ∈ (ModuleDecl.ofPeripheral p).structs, i.Names (ModuleDecl.ofPeripheral p) s := by
  obtain ⟨s, first, rfl⟩ := Option.map_eq_some_iff.mp h
  refine ⟨s, List.mem_of_mem_head? first, ?_, ?_⟩
  · rw [ofPeripheral_name]
  · rw [ofPeripheral_name, ofPeripheral_addressName]

/-- **Every selected peripheral is declared** when the files have names of their own. -/
theorem declares_of_mem {d : Device} {o : Options} {ps : List Peripheral}
    (distinct : ((fileLines d o ps).map (·.name)).Nodup) {p : Peripheral} (h : p ∈ ps) :
    Declares d o ps p := by
  unfold Declares fileLines at *
  cases arrangement : o.arrangement with
  | combined =>
      refine ⟨_, [], rfl, List.suffix_append _ _, ?_⟩
      have held : inlineModule o.visibility.keyword p <:+:
          ps.flatMap (inlineModule o.visibility.keyword) :=
        List.infix_of_mem_flatten (List.mem_map_of_mem h)
      exact held.trans (List.infix_append _ _ _)
  | perPeripheral =>
      rw [arrangement] at distinct
      have unit : (⟨fileName (Name.snakeCase p.name), moduleLines d p⟩ : FileLines) ∈
          ps.map fun p => ⟨fileName (Name.snakeCase p.name), moduleLines d p⟩ :=
        List.mem_map_of_mem h
      refine ⟨_, _, rfl, List.suffix_append _ _, ?_, unit, ?_⟩
      · refine List.mem_append_left _ (List.mem_append_right _ (List.mem_cons_of_mem _ ?_))
        exact List.mem_map_of_mem h
      · refine List.count_eq_one_of_mem distinct ?_
        exact List.mem_map.mpr ⟨_, List.mem_cons_of_mem _ unit, rfl⟩

/-- **The references of an exported map.** -/
theorem Exports.closed {d : Device} (wellFormed : d.WellFormed) {o : Options}
    {ps : List Peripheral} {files : List SourceFile} (h : Exports d o ps files) :
    FilesClosed d o ps := by
  have scopes := h.scoped wellFormed
  have known : ∀ p ∈ ps, p.WellFormed := fun p hp => wellFormed.peripherals p (h.sublist.subset hp)
  refine ⟨fun p hp => ofPeripheral_closed (known p hp), fun i hi => ?_⟩
  obtain ⟨p, hp, own⟩ := List.mem_filterMap.mp hi
  obtain ⟨s, hs, names⟩ := exists_names own
  have files : ((fileLines d o ps).map (·.name)).Nodup := by
    have files := scopes.files
    rw [h.files, List.map_map] at files
    exact files
  refine ⟨p, hp, declares_of_mem files hp, ?_, s, hs, names, ?_⟩
  · exact List.count_eq_one_of_mem scopes.modules.distinct
      (List.mem_map_of_mem (List.mem_map_of_mem hp))
  · exact List.count_eq_one_of_mem (scopes.each p hp).structs.distinct (List.mem_map_of_mem hs)

/-- **The source of every map that a document has is closed** under its references, whatever the
options are. -/
theorem ofText_closed {text : String} {checked : Map.Checked} (h : Map.ofText text = .ok checked)
    {o : Options} {files : List SourceFile} (exported : exportMap checked.device o = .ok files) :
    ∃ ps, Exports checked.device o ps files ∧ FilesClosed checked.device o ps := by
  obtain ⟨device, wellFormed, rfl⟩ := Map.exists_wellFormed h
  obtain ⟨ps, exports⟩ := exports_of_exportMap exported
  exact ⟨ps, exports, exports.closed wellFormed⟩

/-- In the sample, two registers name a type each, and the instance names a struct. -/
theorem ofText_closed_sample : ∃ checked files, Map.ofText Map.sample = .ok checked ∧
    exportMap checked.device .default = .ok files ∧
    (∃ ps, Exports checked.device .default ps files ∧ FilesClosed checked.device .default ps) := by
  obtain ⟨checked, h, -⟩ := Map.ofText_sample
  obtain ⟨files, exported⟩ := exists_exportMap_default checked.device
  exact ⟨checked, files, h, exported, ofText_closed h exported⟩

end ChipMap.Source
