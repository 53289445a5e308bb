import ChipMap.Proofs.Source.Code
import ChipMap.Proofs.Source.Scopes

/-!
# Lines of one line

A line of source becomes one line of text when it holds no line feed, and one that is indented when
it is not empty.  **So does every line of every module** (`items_oneLine`), whatever the map holds:
a name is written in some case, which keeps letters and digits only, a number is written with
digits, and a comment was split into lines before.

### What is load-bearing

Nothing is assumed of the map, so its names need not be identifiers.  What makes a name of the
source harmless is the change of case that it goes through last, and a claim adds digits only
(`Name.IsBare`); `Spells` carries this through shaping, where most names of a module are given out.

Shaping is a computation over a table of types.  A step that spells keeps the table bare and makes
something bare from any table that is, so steps are put together by `bind` and `mapM` as they are in
the program.
-/

namespace ChipMap.Source

open Map (Register Cluster Peripheral Vector)
open Name (IsBare Claimed isBare_snakeCase isBare_camelCase isBare_constantCase isBare_toString)

/-! ### Texts and lines -/

/-- **A text of one line**: it holds no line feed.  It may be empty. -/
def OneLine (text : String) : Prop := '\n' ∉ text.toList

instance (text : String) : Decidable (OneLine text) :=
  inferInstanceAs (Decidable ('\n' ∉ text.toList))

@[simp] theorem oneLine_append {a b : String} : OneLine (a ++ b) ↔ OneLine a ∧ OneLine b := by
  simp [OneLine, not_or]

theorem oneLine_of_isBare {name : String} (h : IsBare name) : OneLine name :=
  fun feed => absurd (h _ feed) (by decide)

@[simp] theorem oneLine_repr (n : Nat) : OneLine n.repr := oneLine_of_isBare (isBare_toString n)

/-- Lines that each become one line of text, which is not empty. -/
def OneLiners (lines : List Line) : Prop := ∀ l ∈ lines, l.text ≠ "" ∧ OneLine l.text

@[simp] theorem oneLiners_nil : OneLiners [] := List.forall_mem_nil _

@[simp] theorem oneLiners_cons {l : Line} {rest : List Line} :
    OneLiners (l :: rest) ↔ (l.text ≠ "" ∧ OneLine l.text) ∧ OneLiners rest :=
  List.forall_mem_cons

@[simp] theorem oneLiners_append {a b : List Line} :
    OneLiners (a ++ b) ↔ OneLiners a ∧ OneLiners b := List.forall_mem_append

@[simp] theorem line_text (text : String) : (line text).text = text := rfl

@[simp] theorem oneLiners_nested {lines : List Line} : OneLiners (nested lines) ↔ OneLiners lines :=
  List.forall_mem_map

theorem oneLiners_enclosed {opening closing : String} {inner : List Line} :
    OneLiners (enclosed opening closing inner) ↔
      (opening ≠ "" ∧ OneLine opening) ∧ OneLiners inner ∧ closing ≠ "" ∧ OneLine closing := by
  simp [enclosed]

theorem oneLiners_flatMap {α : Type} {f : α → List Line} {items : List α}
    (h : ∀ x ∈ items, OneLiners (f x)) : OneLiners (items.flatMap f) := by
  intro l hl
  obtain ⟨x, hx, hl⟩ := List.mem_flatMap.mp hl
  exact h x hx l hl

theorem oneLiners_docs (text : Option String) {marker : String} (some : marker ≠ "")
    (h : OneLine marker) : OneLiners ((docLines text).map fun d => line (marker ++ d)) := by
  intro l hl
  obtain ⟨doc, hdoc, rfl⟩ := List.mem_map.mp hl
  refine ⟨fun empty => some (String.append_eq_empty_iff.mp empty).1, ?_⟩
  exact oneLine_append.mpr ⟨h, not_mem_of_mem_docLines hdoc⟩

theorem oneLiners_outerDoc (text : Option String) : OneLiners (outerDoc (docLines text)) :=
  oneLiners_docs text (by decide) (by decide)

theorem oneLiners_innerDoc (text : Option String) : OneLiners (innerDoc (docLines text)) :=
  oneLiners_docs text (by decide) (by decide)

/-! ### Names that shaping gives out -/

/-- The names in the type of a member are bare. -/
def SlotKind.IsBare : SlotKind → Prop
  | .register _ _ _ bitfield _ => ∀ name ∈ bitfield, Name.IsBare name
  | .block structName _ => Name.IsBare structName

/-- **A slot of bare names**: its own and those in its type. -/
structure Slot.IsBare (s : Slot) : Prop where
  name : Name.IsBare s.name
  kind : s.kind.IsBare

/-- **A struct of bare names**: its own and those of its slots. -/
structure Block.IsBare (b : Block) : Prop where
  name : Name.IsBare b.name
  slots : ∀ s ∈ b.slots, s.IsBare

/-- **A step of shaping that spells**: the types that it notes have bare names, and what it makes is
what `P` says. -/
structure Spells {α : Type} (c : Shaping α) (P : α → Prop) : Prop where
  noted : ∀ t : TypeTable, (∀ b ∈ t.bitfields, Name.IsBare b.name) →
    ∀ b ∈ (c.run t).2.bitfields, Name.IsBare b.name
  made : ∀ t : TypeTable, P (c.run t).1

namespace Spells

variable {α β : Type} {P : α → Prop} {R : β → Prop}

theorem pure {a : α} (h : P a) : Spells (Pure.pure a) P where
  noted _ known := known
  made _ := h

theorem bind {c : Shaping α} {f : α → Shaping β} (first : Spells c P)
    (next : ∀ a, P a → Spells (f a) R) : Spells (c >>= f) R where
  noted t known := (next _ (first.made t)).noted _ (first.noted t known)
  made t := (next _ (first.made t)).made _

theorem mapM {f : α → Shaping β} (each : ∀ a, Spells (f a) R) (items : List α) :
    Spells (items.mapM f) fun made => ∀ b ∈ made, R b := by
  induction items with
  | nil => exact pure (List.forall_mem_nil _)
  | cons x rest ih =>
      rw [List.mapM_cons]
      refine (each x).bind fun b hb => ih.bind fun others hothers => pure ?_
      exact List.forall_mem_cons.mpr ⟨hb, hothers⟩

end Spells

theorem claimStruct_spells (path : String) : Spells (claimStruct path) Name.IsBare where
  noted _ known := known
  made t := by
    rw [claimStruct_run]
    dsimp only
    exact isBare_camelCase _

theorem claimBitfield_spells (lead : String) (r : Register) :
    Spells (claimBitfield lead r) fun noted => ∀ name ∈ noted, Name.IsBare name := by
  by_cases h : hasBitfield r = true
  · have given (t : TypeTable) := isBare_camelCase (t.typeNames.claim (lead ++ r.name)).1
    refine ⟨fun t known => ?_, fun t => ?_⟩
    · have bare := given t
      rw [claimBitfield_run h]
      dsimp only
      generalize Name.camelCase (t.typeNames.claim (lead ++ r.name)).1 = name at bare
      exact List.forall_mem_append.mpr ⟨known, List.forall_mem_singleton.mpr bare⟩
    · have bare := given t
      rw [claimBitfield_run h]
      dsimp only
      generalize Name.camelCase (t.typeNames.claim (lead ++ r.name)).1 = name at bare
      rintro _ ⟨⟩
      exact bare
  · rw [claimBitfield, if_neg h]
    exact .pure fun name noted => absurd noted (Option.not_mem_none name)

/-- The slots of a node have names in snake case. -/
theorem isBare_of_mem_arraySlots {name : String} {offset : Word} {size : Nat}
    {vector : Option Vector} {kind : Option Nat → SlotKind} (bare : ∀ n, (kind n).IsBare) {s : Slot}
    (h : s ∈ arraySlots name offset size vector kind) : s.IsBare := by
  obtain ⟨suffix, count, named, kinded⟩ := exists_of_mem_arraySlots h
  have snake := isBare_snakeCase (name ++ suffix)
  rw [← named] at snake
  exact ⟨snake, kinded ▸ bare count⟩

theorem registerSlots_spells (lead : String) (r : Register) :
    Spells (registerSlots lead r) fun slots => ∀ s ∈ slots, s.IsBare := by
  refine (claimBitfield_spells lead r).bind fun bitfield bare => .pure fun s hs => ?_
  refine isBare_of_mem_arraySlots (fun _ => ?_) hs
  exact bare

theorem nameMembers_isBare {slots : List Slot} (bare : ∀ s ∈ slots, s.IsBare) :
    ∀ s ∈ nameMembers slots, s.IsBare := by
  intro s hs
  obtain ⟨wanted, hwanted, same⟩ := exists_of_forall₂ (nameMembers_renamed slots) hs
  refine ⟨?_, same ▸ (bare wanted hwanted).kind⟩
  have member := List.mem_map_of_mem (f := (·.name)) hs
  rw [map_name_nameMembers] at member
  refine Claimed.forall_mem_claimList (fun claimed n h => h.choose claimed) .empty ?_ _ member
  intro n hn
  obtain ⟨t, ht, rfl⟩ := List.mem_map.mp hn
  exact (bare t ht).name

/-- What shaping makes of clusters: slots and structs of bare names. -/
def BareParts (made : List Slot × List Block) : Prop :=
  (∀ s ∈ made.1, s.IsBare) ∧ ∀ b ∈ made.2, b.IsBare

theorem bareParts_nil : BareParts ([], []) := ⟨List.forall_mem_nil _, List.forall_mem_nil _⟩

/-- The structs of a node and of the clusters in it. -/
theorem shapeBlock_spells {inner : Shaping (List Slot × List Block)} (parts : Spells inner BareParts)
    (path lead : String) (registers : List Register) (stride : Option Nat) :
    Spells (shapeBlock path lead registers stride inner) fun blocks => ∀ b ∈ blocks, b.IsBare := by
  refine (claimStruct_spells path).bind fun name hname => ?_
  refine (Spells.mapM (registerSlots_spells lead) registers).bind fun own hown => ?_
  refine parts.bind ?_
  rintro ⟨nested, blocks⟩ ⟨hnested, hblocks⟩
  dsimp only
  split
  · exact .pure (List.forall_mem_nil _)
  · refine .pure (List.forall_mem_cons.mpr ⟨⟨hname, nameMembers_isBare fun s hs => ?_⟩, hblocks⟩)
    rcases List.mem_append.mp hs with hs | hs
    · obtain ⟨slots, hslots, hs⟩ := List.mem_flatten.mp hs
      exact hown slots hslots s hs
    · exact hnested s hs

theorem shapeClusters_spells (clusters : List Cluster) : ∀ path lead : String,
    Spells (shapeClusters path lead clusters) BareParts := by
  induction clusters using Map.clusters_induct with
  | nil =>
      intro path lead
      rw [shapeClusters]
      exact .pure bareParts_nil
  | cons c rest inner others =>
      intro path lead
      have own : Spells (shapeCluster path lead c) BareParts := by
        obtain ⟨name, description, offset, vector, registers, clusters⟩ := c
        rw [shapeCluster]
        refine (shapeBlock_spells (inner _ _) _ _ registers _).bind fun blocks bare => ?_
        cases blocks with
        | nil => exact .pure bareParts_nil
        | cons block behind =>
            refine .pure ⟨fun s hs => isBare_of_mem_arraySlots (fun _ => ?_) hs, bare⟩
            exact (bare block List.mem_cons_self).name
      rw [shapeClusters]
      refine own.bind ?_
      rintro ⟨slots, blocks⟩ ⟨hslots, hblocks⟩
      refine (others path lead).bind ?_
      rintro ⟨otherSlots, otherBlocks⟩ ⟨hothers, hotherBlocks⟩
      exact .pure ⟨List.forall_mem_append.mpr ⟨hslots, hothers⟩,
        List.forall_mem_append.mpr ⟨hblocks, hotherBlocks⟩⟩

/-- **The names of a peripheral are bare**: those of its types, of its structs and of the slots. -/
theorem shapePeripheral_isBare (p : Peripheral) :
    (∀ b ∈ (shapePeripheral p).bitfields, Name.IsBare b.name) ∧
      ∀ b ∈ (shapePeripheral p).blocks, b.IsBare := by
  have made := shapeBlock_spells (shapeClusters_spells p.clusters p.name "") p.name "" p.registers none
  exact ⟨made.noted .empty (List.forall_mem_nil _), made.made .empty⟩

/-! ### Structs -/

/-- A slot with another one folded in keeps its names. -/
theorem Slot.IsBare.absorb {s t m : Slot} (h : s.absorb? t = some m) (bare : s.IsBare) :
    m.IsBare := by
  obtain ⟨-, _, _, _, _, _, _, _, kind, -, rfl⟩ := Slot.absorb?_inv h
  have names := bare.kind
  rw [kind] at names
  exact ⟨bare.name, names⟩

theorem oneLine_typeName {k : SlotKind} (h : k.IsBare) : OneLine k.typeName := by
  have element : OneLine k.elementType := by
    cases k with
    | register readable writable storage bitfield count =>
        have access : OneLine (accessType readable writable) := by
          cases readable <;> cases writable <;> decide
        have storage : OneLine storage.typeName := oneLine_append.mpr ⟨by decide, oneLine_repr _⟩
        cases bitfield with
        | none => simp +decide [SlotKind.elementType, access, storage]
        | some name =>
            have name := oneLine_of_isBare (h name rfl)
            simp +decide [SlotKind.elementType, access, storage, name]
    | block structName count => exact oneLine_of_isBare h
  unfold SlotKind.typeName
  split
  · simp +decide [element]
  · exact element

/-- The text of an entry, when the slots in it have bare names. -/
theorem oneLine_text {e : Entry} (h : ∀ s, e = .field s ∨ e = .remark s → s.IsBare) :
    e.text ≠ "" ∧ OneLine e.text := by
  have place (n : Nat) : OneLine (Numeral.hexPlain n) :=
    oneLine_of_isBare (Name.isBare_hexPlain n)
  cases e with
  | field s =>
      have bare := h s (.inl rfl)
      have name := oneLine_of_isBare bare.name
      simp +decide [Entry.text, place, name, oneLine_typeName bare.kind]
  | reserved offset number => simp +decide [Entry.text, place]
  | remark s =>
      have name := oneLine_of_isBare (h s (.inr rfl)).name
      simp +decide [Entry.text, place, name]

theorem oneLiners_struct {b : Block} (bare : b.IsBare) (isLast : Bool) :
    OneLiners (b.declaration.lines isLast) := by
  have name : OneLine b.declaration.name := by
    rw [declaration_name]
    exact oneLine_of_isBare bare.name
  have merged := forall_mem_merged Slot.IsBare.absorb bare.slots
  have entries : OneLiners (b.declaration.entries.map fun e => line e.text) := by
    refine List.forall_mem_map.mpr fun e he => oneLine_text fun s about => ?_
    have placed := mem_entries_iff (b := b) (e := e) (by rcases about with rfl | rfl <;> nofun)
    exact merged s (mem_of_mem_place about (placed.mp he))
  have last : endText b.declaration.stop ≠ "" ∧ OneLine (endText b.declaration.stop) := by
    have place := oneLine_of_isBare (Name.isBare_hexPlain b.declaration.stop)
    simp +decide [endText, place]
  refine oneLiners_enclosed.mpr ⟨by simp +decide [name], ?_, by cases isLast <;> decide⟩
  simp [entries, last]

theorem oneLiners_structs {blocks : List Block} (bare : ∀ b ∈ blocks, b.IsBare) :
    OneLiners (structLines (blocks.map Block.declaration)) := by
  induction blocks with
  | nil => exact oneLiners_nil
  | cons b rest ih =>
      obtain ⟨first, behind⟩ := List.forall_mem_cons.mp bare
      cases rest with
      | nil => exact oneLiners_struct first true
      | cons next rest => exact oneLiners_append.mpr ⟨oneLiners_struct first false, ih behind⟩

/-! ### Bitfield types -/

theorem oneLiners_variant {f : Map.Field} {v : Variant} (h : v ∈ variants f) :
    OneLiners v.lines := by
  obtain ⟨⟨c, value⟩, -, rfl⟩ := List.mem_map.mp h
  have name := oneLine_of_isBare (isBare_camelCase c.name)
  have constant := oneLine_of_isBare (Name.isBare_hexConstant value.toNat)
  simp +decide [Variant.lines, oneLiners_outerDoc, name, constant]

theorem oneLiners_field (f : Map.Field) : OneLiners (FieldDecl.ofField f).lines := by
  have name := oneLine_of_isBare (isBare_camelCase f.name)
  have access : OneLine f.access.label := by
    cases f.access <;> decide
  have variants : OneLiners ((Source.variants f).flatMap Variant.lines) :=
    oneLiners_flatMap fun v hv => oneLiners_variant hv
  unfold FieldDecl.lines FieldDecl.remark FieldDecl.ofField
  dsimp only
  split
  · simp +decide [oneLiners_outerDoc, name, access]
  · simp +decide [oneLiners_outerDoc, oneLiners_enclosed, name, access, variants]

theorem oneLiners_bitfield {b : Bitfield} (bare : Name.IsBare b.name) :
    OneLiners b.declaration.lines := by
  have name := oneLine_of_isBare bare
  have fields : OneLiners ((b.register.fields.map FieldDecl.ofField).flatMap FieldDecl.lines) := by
    rw [List.flatMap_map]
    exact oneLiners_flatMap fun f _ => oneLiners_field f
  unfold BitfieldDecl.lines Bitfield.declaration
  simp +decide [oneLiners_outerDoc, oneLiners_enclosed, name, fields]

theorem oneLiners_group {bitfields : List Bitfield} (bare : ∀ b ∈ bitfields, Name.IsBare b.name)
    {g : BitfieldGroup} (h : g ∈ groupByStorage bitfields) : OneLiners g.lines := by
  have types : OneLiners (g.types.flatMap BitfieldDecl.lines) := by
    rw [types_of_mem_groups h, List.flatMap_map]
    exact oneLiners_flatMap fun b hb => oneLiners_bitfield (bare b (List.mem_filter.mp hb).1)
  have storage : OneLine g.storage.typeName := oneLine_append.mpr ⟨by decide, oneLine_repr _⟩
  unfold BitfieldGroup.lines
  simp +decide [oneLiners_enclosed, storage, types]

/-! ### Modules -/

theorem oneLiners_constant {name typeName value : String} (text : Option String)
    (oneLine : OneLine name ∧ OneLine typeName ∧ OneLine value) :
    OneLiners (Constant.lines "pub " ⟨docLines text, name, typeName, value⟩) := by
  obtain ⟨name, typeName, value⟩ := oneLine
  simp +decide [Constant.lines, oneLiners_outerDoc, name, typeName, value]

theorem oneLine_int (i : Int) : OneLine (toString i) := by
  cases i with
  | ofNat n => exact oneLine_repr n
  | negSucc n => exact oneLine_append.mpr ⟨by decide, oneLine_repr _⟩

theorem oneLiners_constants (p : Peripheral) :
    OneLiners ((addressConstant p).lines "pub ") ∧
      OneLiners ((p.interrupts.map interruptConstant).flatMap (Constant.lines "pub ")) := by
  have upper (name : String) := oneLine_of_isBare (isBare_constantCase name)
  refine ⟨oneLiners_constant none ⟨?_, by decide, ?_⟩, ?_⟩
  · exact oneLine_append.mpr ⟨upper p.name, by decide⟩
  · exact oneLine_of_isBare (Name.isBare_hexConstant _)
  · rw [List.flatMap_map]
    refine oneLiners_flatMap fun i _ => oneLiners_constant i.description ⟨?_, by decide, ?_⟩
    · exact oneLine_append.mpr ⟨upper i.name, by decide⟩
    · exact oneLine_int i.value

/-- **Every line of a module becomes one line of text**, whatever the map holds. -/
theorem items_oneLine (p : Peripheral) : OneLiners (ModuleDecl.ofPeripheral p).items := by
  obtain ⟨bitfields, blocks⟩ := shapePeripheral_isBare p
  have groups : OneLiners ((groupByStorage (shapePeripheral p).bitfields).flatMap
      BitfieldGroup.lines) := oneLiners_flatMap fun g hg => oneLiners_group bitfields hg
  have structs := oneLiners_structs blocks
  have bits : OneLiners (ModuleDecl.ofPeripheral p).bitsLines := by
    unfold ModuleDecl.bitsLines ModuleDecl.ofPeripheral
    split
    · exact oneLiners_nil
    · simp +decide [oneLiners_enclosed, groups]
  have regs : OneLiners (ModuleDecl.ofPeripheral p).regsLines := by
    unfold ModuleDecl.regsLines ModuleDecl.ofPeripheral
    split
    · exact oneLiners_nil
    · simp +decide [oneLiners_enclosed, structs]
  obtain ⟨address, interrupts⟩ := oneLiners_constants p
  unfold ModuleDecl.items
  simp only [oneLiners_append]
  exact ⟨⟨⟨⟨oneLiners_innerDoc p.description, address⟩, interrupts⟩, bits⟩, regs⟩

end ChipMap.Source
