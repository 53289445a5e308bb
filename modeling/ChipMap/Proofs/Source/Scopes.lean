import ChipMap.Proofs.Map.OfText
import ChipMap.Proofs.Source.Sound
import ChipMap.Proofs.Source.Types
import ChipMap.Source.Export

/-!
# The scopes of the produced source

Every declaration of the produced source is in a scope with others: the modules of a file, the
constants of a module, its types, the fields of a type, the variants of a field, the structs of a
module and the members of a struct.  **In each of them the declared names may be declared, and none
is declared twice** (`ModuleDecl.Scoped`, `FilesScoped`).

### What is load-bearing

Names of the map have distinct keys, and a change of case keeps keys; that settles every scope whose
names are those of the map.  Members and types are named by claims, which keep keys apart.  A
reservation has a letter behind its underscore, where the name of a member has a digit, so
reservations do not meet members.

Members are followed slot by slot along the pass that places them (`membersFrom_cons`).  The
invariant of that pass is that reservations so far have the numbers from where it began up to the
next one, and everything else is the name of a slot (`membersFrom_distinct`).
-/

namespace ChipMap.Source

open Map (Device Peripheral)
open Name (IsDeclarable LeadsDigit Scoped distinctKey)

/-! ### Members -/

/-- The name of a reservation. -/
def reservation (number : Nat) : String := "_reserved" ++ toString number

/-- The name that an entry declares.  A remark is a comment and declares none. -/
def Entry.declared? : Entry → Option String
  | field s => some s.name
  | reserved _ number => some (reservation number)
  | remark _ => none

/-- The names that are declared in a struct. -/
def StructDecl.members (d : StructDecl) : List String := d.entries.filterMap Entry.declared?

theorem reservation_inj {m n : Nat} (h : reservation m = reservation n) : m = n := by
  rw [reservation, reservation, String.append_right_inj] at h
  exact Name.toString_inj h

theorem reservation_declarable (number : Nat) : IsDeclarable (reservation number) := by
  have word : Name.IsIdentifier "_reserved" := by
    refine ⟨by decide, by decide, ?_⟩
    rintro _ ⟨⟩
    rfl
  exact word.append_number number

/-- **A reservation has the name of no member**: behind the underscore stands a letter. -/
theorem ne_reservation {name : String} (h : LeadsDigit name) (number : Nat) :
    name ≠ reservation number := by
  rintro rfl
  have front := h 'r' ("eserved".toList ++ (toString number).toList) (by
    rw [reservation, String.toList_append]
    rfl)
  cases front

/-- What is declared behind the places below `next` when `number` reservations were made. -/
def membersFrom (next number : Nat) (slots : List Slot) : List String :=
  (place next number slots).1.filterMap Entry.declared?

def reservationsAfter (next number : Nat) (slots : List Slot) : Nat := (place next number slots).2.2

/-- **What one slot adds**: nothing when it is behind, and else its name, behind a reservation where
there is a gap. -/
theorem membersFrom_cons (next number : Nat) (s : Slot) (rest : List Slot) :
    (membersFrom next number (s :: rest) = membersFrom next number rest ∧
        reservationsAfter next number (s :: rest) = reservationsAfter next number rest) ∨
      (membersFrom next number (s :: rest) =
          reservation number :: s.name :: membersFrom s.stop (number + 1) rest ∧
        reservationsAfter next number (s :: rest) = reservationsAfter s.stop (number + 1) rest) ∨
      (membersFrom next number (s :: rest) = s.name :: membersFrom s.stop number rest ∧
        reservationsAfter next number (s :: rest) = reservationsAfter s.stop number rest) := by
  unfold membersFrom reservationsAfter
  rw [place]
  split
  · exact .inl ⟨rfl, rfl⟩
  · split
    · exact .inr (.inl ⟨rfl, rfl⟩)
    · exact .inr (.inr ⟨rfl, rfl⟩)

/-- A reservation with a number from `low` on and below `high`. -/
def IsReservation (low high : Nat) (name : String) : Prop :=
  ∃ n, low ≤ n ∧ n < high ∧ reservation n = name

/-- **What is declared** are names of slots and reservations, each once, when the slots have
distinct names.  By induction on the slots, with the numbers of the reservations as bounds. -/
theorem membersFrom_distinct {slots : List Slot} (distinct : (slots.map (·.name)).Nodup)
    (leads : ∀ s ∈ slots, LeadsDigit s.name) : ∀ next number : Nat,
    number ≤ reservationsAfter next number slots ∧
      (∀ name ∈ membersFrom next number slots, name ∈ slots.map (·.name) ∨
        IsReservation number (reservationsAfter next number slots) name) ∧
      (membersFrom next number slots).Nodup := by
  induction slots with
  | nil => exact fun next number => ⟨Nat.le_refl _, (fun _ h => nomatch h), List.nodup_nil⟩
  | cons s rest ih =>
      rw [List.map_cons, List.nodup_cons] at distinct
      have leads' := fun t ht => leads t (List.mem_cons_of_mem _ ht)
      have noReservation := ne_reservation (leads s List.mem_cons_self)
      intro next number
      -- What stands behind this slot has another name.
      have other {from_ from' : Nat} (h : s.name ∈ membersFrom from_ from' rest) : False := by
        rcases (ih distinct.2 leads' from_ from').2.1 _ h with known | ⟨n, -, -, same⟩
        · exact distinct.1 known
        · exact noReservation n same.symm
      rcases membersFrom_cons next number s rest with ⟨names, last⟩ | ⟨names, last⟩ | ⟨names, last⟩
      · obtain ⟨more, each, nodup⟩ := ih distinct.2 leads' next number
        rw [names, last]
        refine ⟨more, fun name hname => ?_, nodup⟩
        exact (each name hname).imp_left (List.mem_cons_of_mem _)
      · obtain ⟨more, each, nodup⟩ := ih distinct.2 leads' s.stop (number + 1)
        rw [names, last]
        refine ⟨by omega, fun name hname => ?_, ?_⟩
        · rcases List.mem_cons.mp hname with rfl | hname
          · exact .inr ⟨number, Nat.le_refl _, more, rfl⟩
          · rcases List.mem_cons.mp hname with rfl | hname
            · exact .inl List.mem_cons_self
            · rcases each name hname with known | ⟨n, low, high, same⟩
              · exact .inl (List.mem_cons_of_mem _ known)
              · exact .inr ⟨n, by omega, high, same⟩
        · refine List.nodup_cons.mpr ⟨fun again => ?_, List.nodup_cons.mpr ⟨other, nodup⟩⟩
          rcases List.mem_cons.mp again with same | again
          · exact noReservation number same.symm
          · rcases each _ again with known | ⟨n, low, -, same⟩
            · obtain ⟨t, ht, same⟩ := List.mem_map.mp known
              exact ne_reservation (leads' t ht) number same
            · have := reservation_inj same
              omega
      · obtain ⟨more, each, nodup⟩ := ih distinct.2 leads' s.stop number
        rw [names, last]
        refine ⟨more, fun name hname => ?_, List.nodup_cons.mpr ⟨other, nodup⟩⟩
        rcases List.mem_cons.mp hname with rfl | hname
        · exact .inl List.mem_cons_self
        · exact (each name hname).imp_left (List.mem_cons_of_mem _)

/-- The members of a struct are what its placed slots declare, and a reservation at the end. -/
theorem declaration_members (b : Block) :
    b.declaration.members = membersFrom 0 0 (mergeSlots (sortSlots b.slots)) ∨
      b.declaration.members = membersFrom 0 0 (mergeSlots (sortSlots b.slots)) ++
        [reservation (reservationsAfter 0 0 (mergeSlots (sortSlots b.slots)))] := by
  unfold Block.declaration StructDecl.members
  dsimp only
  split
  · refine .inr ?_
    rw [List.filterMap_append]
    rfl
  · exact .inl rfl

/-- **The members of a struct** are a scope, reservations among them. -/
theorem Block.Sound.members {bs : List Bitfield} {b : Block} (h : b.Sound bs) :
    Scoped b.declaration.members := by
  obtain ⟨sound, names⟩ := h.merged
  obtain ⟨-, each, distinct⟩ := membersFrom_distinct names (fun s hs => (sound s hs).leadsDigit) 0 0
  have declarable : ∀ name ∈ membersFrom 0 0 (mergeSlots (sortSlots b.slots)),
      IsDeclarable name := by
    intro name hname
    rcases each name hname with known | ⟨n, -, -, rfl⟩
    · obtain ⟨s, hs, rfl⟩ := List.mem_map.mp known
      exact (sound s hs).declarable
    · exact reservation_declarable n
  rcases declaration_members b with members | members
  · exact members ▸ ⟨declarable, distinct⟩
  · rw [members]
    refine ⟨fun name hname => ?_, ?_⟩
    · rcases List.mem_append.mp hname with hname | hname
      · exact declarable name hname
      · rw [List.mem_singleton.mp hname]
        exact reservation_declarable _
    · refine List.nodup_append.mpr ⟨distinct, List.nodup_singleton _, ?_⟩
      rintro name hname _ last rfl
      rw [List.mem_singleton] at last
      rcases each name hname with known | ⟨n, -, high, same⟩
      · obtain ⟨s, hs, same⟩ := List.mem_map.mp known
        exact ne_reservation (sound s hs).leadsDigit _ (same.trans last)
      · have := reservation_inj (same.trans last)
        omega

/-! ### Fields and variants -/

/-- Names of nodes that are well formed are a scope in every case. -/
theorem scoped_of_apart {change : String → String} (isCase : Name.IsCase change)
    {names : List String} (identifiers : ∀ n ∈ names, Name.IsIdentifier n)
    (apart : Name.Apart names) : Scoped (names.map change) :=
  isCase.scoped (fun n hn => (identifiers n hn).2.1) (apart.keys identifiers)

theorem distinctCases_sublist (mask : Word) (cases : List Map.EnumCase) : ∀ seen : List Word,
    ((distinctCases mask seen cases).map (·.1)).Sublist cases := by
  induction cases with
  | nil => exact fun seen => List.Sublist.refl _
  | cons c rest ih =>
      intro seen
      rw [distinctCases]
      split
      · exact (ih seen).cons c
      · split
        · exact (ih _).cons_cons c
        · exact (ih seen).cons c

/-- **The variants of a field** are a scope, since each comes from another case and cases have
distinct keys. -/
theorem variants_scoped {size : Nat} {f : Map.Field} (wellFormed : f.WellFormed size) :
    Scoped ((variants f).map (·.name)) := by
  have cases := wellFormed.cases
  have some := distinctCases_sublist (Bits.mask ⟨0, f.width⟩) f.cases []
  have names : (variants f).map (·.name) =
      (((distinctCases (Bits.mask ⟨0, f.width⟩) [] f.cases).map (·.1)).map (·.name)).map
        Name.camelCase := by
    simp only [variants, List.map_map, Function.comp_def]
  rw [names]
  refine scoped_of_apart Name.isCase_camelCase (fun n hn => ?_) ?_
  · obtain ⟨c, hc, rfl⟩ := List.mem_map.mp hn
    exact cases.identifier c (some.subset hc)
  · have fewer := (some.map fun c : Map.EnumCase => c.name).map Name.looseKey
    exact fewer.nodup cases.apart

/-- **The fields of a type** are a scope, as are those of the register. -/
theorem fields_scoped {r : Map.Register} (wellFormed : r.WellFormed) :
    Scoped ((r.fields.map FieldDecl.ofField).map (·.name)) := by
  have names : (r.fields.map FieldDecl.ofField).map (·.name) =
      (r.fields.map (·.name)).map Name.camelCase := by
    simp only [FieldDecl.ofField, List.map_map, Function.comp_def]
  rw [names]
  refine scoped_of_apart Name.isCase_camelCase (fun n hn => ?_) wellFormed.apart
  obtain ⟨f, hf, rfl⟩ := List.mem_map.mp hn
  exact (wellFormed.fields f hf).identifier

/-! ### Groups of types -/

section Groups

variable {bitfields : List Bitfield}

theorem types_of_mem_groups {g : BitfieldGroup} (h : g ∈ groupByStorage bitfields) :
    g.types = (bitfields.filter fun b => b.storage = g.storage).map Bitfield.declaration := by
  obtain ⟨storage, -, made⟩ := List.mem_filterMap.mp h
  dsimp only at made
  split at made
  · cases made
  · obtain rfl := Option.some.inj made
    rfl

theorem exists_group {b : Bitfield} (h : b ∈ bitfields) :
    ∃ g ∈ groupByStorage bitfields, g.storage = b.storage ∧ b.declaration ∈ g.types := by
  have member : b.declaration ∈
      (bitfields.filter fun c => c.storage = b.storage).map Bitfield.declaration :=
    List.mem_map_of_mem (List.mem_filter.mpr ⟨h, by simp⟩)
  refine ⟨⟨b.storage, _⟩, List.mem_filterMap.mpr ⟨b.storage, ?_, ?_⟩, rfl, member⟩
  · cases b.storage <;> decide
  · dsimp only
    rw [if_neg]
    intro none
    rw [List.isEmpty_iff.mp none] at member
    cases member

theorem flatMap_types_names :
    ((groupByStorage bitfields).flatMap (·.types)).map (·.name) =
      Storage.all.flatMap fun storage =>
        (bitfields.filter fun b => b.storage = storage).map (·.name) := by
  unfold groupByStorage
  induction Storage.all with
  | nil => rfl
  | cons storage rest ih =>
      rw [List.flatMap_cons, ← ih, List.filterMap_cons]
      cases types : (bitfields.filter fun b => b.storage = storage) with
      | nil => rfl
      | cons b others => simp [Bitfield.declaration]

/-- **The types of all groups have distinct names** when the types have. -/
theorem types_distinct (distinct : (bitfields.map (·.name)).Nodup) :
    (((groupByStorage bitfields).flatMap (·.types)).map (·.name)).Nodup := by
  rw [flatMap_types_names, List.nodup_flatMap]
  refine ⟨fun storage _ => ?_, ?_⟩
  · exact (List.filter_sublist.map _).nodup distinct
  · have storages : Storage.all.Pairwise (· ≠ ·) := by decide
    refine storages.imp fun {a b} other name inA inB => ?_
    obtain ⟨x, hx, same⟩ := List.mem_map.mp inA
    obtain ⟨y, hy, same'⟩ := List.mem_map.mp inB
    obtain ⟨hx, storage⟩ := List.mem_filter.mp hx
    obtain ⟨hy, storage'⟩ := List.mem_filter.mp hy
    have one := List.inj_on_of_nodup_map distinct hx hy (same.trans same'.symm)
    simp only [decide_eq_true_eq] at storage storage'
    exact other (storage.symm.trans ((congrArg Bitfield.storage one).trans storage'))

end Groups

/-! ### Modules -/

/-- **The scopes of a module**: its constants, its types with their fields and variants, its structs
with their members. -/
structure ModuleDecl.Scoped (m : ModuleDecl) : Prop where
  constants : Name.Scoped (m.address.name :: m.interrupts.map (·.name))
  types : Name.Scoped ((m.groups.flatMap (·.types)).map (·.name))
  fields : ∀ g ∈ m.groups, ∀ t ∈ g.types, Name.Scoped (t.fields.map (·.name))
  variants : ∀ g ∈ m.groups, ∀ t ∈ g.types, ∀ f ∈ t.fields, Name.Scoped (f.variants.map (·.name))
  structs : Name.Scoped (m.structs.map (·.name))
  members : ∀ s ∈ m.structs, Name.Scoped s.members

theorem ofPeripheral_name (p : Peripheral) :
    (ModuleDecl.ofPeripheral p).name = Name.snakeCase p.name := by
  rw [ModuleDecl.ofPeripheral]

theorem ofPeripheral_addressName (p : Peripheral) :
    (ModuleDecl.ofPeripheral p).address.name = addressName p.name := by
  rw [ModuleDecl.ofPeripheral, addressConstant]

section Modules

variable {p : Peripheral} (wellFormed : p.WellFormed)

include wellFormed

/-- **The constants of a module** end in one of two ways, so the address is none of the
interrupts. -/
theorem constants_scoped :
    Scoped (addressName p.name :: (p.interrupts.map interruptConstant).map (·.name)) := by
  have names : (p.interrupts.map interruptConstant).map (·.name) =
      ((p.interrupts.map (·.name)).map Name.constantCase).map (· ++ "_IRQ") := by
    simp only [interruptConstant, List.map_map, Function.comp_def]
  rw [names]
  constructor
  · intro n hn
    rcases List.mem_cons.mp hn with rfl | hn
    · exact Name.constantCase_append_declarable wellFormed.identifier.2.1 (by decide) (by decide)
    · obtain ⟨upper, hupper, rfl⟩ := List.mem_map.mp hn
      obtain ⟨name, hname, rfl⟩ := List.mem_map.mp hupper
      obtain ⟨i, hi, rfl⟩ := List.mem_map.mp hname
      exact Name.constantCase_append_declarable (wellFormed.interruptIdentifier i hi).2.1
        (by decide) (by decide)
  · refine List.nodup_cons.mpr ⟨fun address => ?_, ?_⟩
    · obtain ⟨n, -, same⟩ := List.mem_map.mp address
      have last := congrArg (fun name : String => name.toList.getLast?) same
      simp [addressName] at last
    · have distinct := (scoped_of_apart Name.isCase_constantCase
        (fun n hn => by
          obtain ⟨i, hi, rfl⟩ := List.mem_map.mp hn
          exact wellFormed.interruptIdentifier i hi) wellFormed.interruptsApart).distinct
      exact distinct.map fun a b same => (String.append_left_inj "_IRQ").mp same

/-- **The module of a well-formed peripheral** has its scopes in order. -/
theorem ofPeripheral_scoped : (ModuleDecl.ofPeripheral p).Scoped := by
  obtain ⟨table, sound, bitfields, blocks⟩ := shapePeripheral_types wellFormed
  have described {g : BitfieldGroup} (hg : g ∈ (ModuleDecl.ofPeripheral p).groups)
      {t : BitfieldDecl} (ht : t ∈ g.types) :
      ∃ b ∈ table.bitfields, b.declaration = t := by
    rw [types_of_mem_groups hg] at ht
    obtain ⟨b, hb, rfl⟩ := List.mem_map.mp ht
    exact ⟨b, bitfields ▸ (List.mem_filter.mp hb).1, rfl⟩
  -- Types are told apart by their keys, and so by their names.
  have typeNames : (table.bitfields.map (·.name)).Nodup := by
    refine List.Nodup.of_map distinctKey ?_
    rw [List.map_map]
    exact sound.distinct
  refine ⟨constants_scoped wellFormed, ⟨fun n hn => ?_, ?_⟩, fun g hg t ht => ?_,
    fun g hg t ht f hf => ?_, ⟨fun n hn => ?_, structsOf_names p⟩, fun s hs => ?_⟩
  · obtain ⟨t, ht, rfl⟩ := List.mem_map.mp hn
    obtain ⟨g, hg, ht⟩ := List.mem_flatMap.mp ht
    obtain ⟨b, hb, rfl⟩ := described hg ht
    exact sound.declarable b hb
  · exact types_distinct (bitfields ▸ typeNames)
  · obtain ⟨b, hb, rfl⟩ := described hg ht
    exact fields_scoped (sound.wellFormed b hb)
  · obtain ⟨b, hb, rfl⟩ := described hg ht
    obtain ⟨field, hfield, rfl⟩ := List.mem_map.mp hf
    exact variants_scoped ((sound.wellFormed b hb).fields field hfield)
  · obtain ⟨s, hs, rfl⟩ := List.mem_map.mp hn
    obtain ⟨b, hb, rfl⟩ := List.mem_map.mp hs
    rw [declaration_name]
    exact (blocks b hb).declarable
  · obtain ⟨b, hb, rfl⟩ := List.mem_map.mp hs
    exact (blocks b hb).members

end Modules

/-! ### Files -/

/-- A map is exported when its peripherals are selected. -/
theorem exportMap_eq (d : Device) (o : Options) :
    exportMap d o = (select d o.selected).map fun ps =>
      (fileLines d o ps).map (FileLines.render o.indentation.unit) := by
  unfold exportMap exportLines
  cases select d o.selected with
  | error fault => rfl
  | ok ps => rfl

/-- **What is exported**: the selected peripherals, in files that are made of their modules.  All
theorems about exported files start from this. -/
structure Exports (d : Device) (o : Options) (ps : List Peripheral) (files : List SourceFile) :
    Prop where
  selected : select d o.selected = .ok ps
  files : files = (fileLines d o ps).map (FileLines.render o.indentation.unit)

theorem exports_of_exportMap {d : Device} {o : Options} {files : List SourceFile}
    (h : exportMap d o = .ok files) : ∃ ps, Exports d o ps files := by
  obtain ⟨lines, hlines, files⟩ := bind_eq_ok.mp h
  obtain ⟨ps, selected, hlines⟩ := bind_eq_ok.mp hlines
  obtain rfl := Except.ok.inj hlines
  exact ⟨ps, selected, (Except.ok.inj files).symm⟩

/-- Only peripherals of the map are selected, in the order of the map. -/
theorem Exports.sublist {d : Device} {o : Options} {ps : List Peripheral} {files : List SourceFile}
    (h : Exports d o ps files) : ps.Sublist d.peripherals := by
  have selected := h.selected
  unfold select at selected
  split at selected
  · cases selected
  · obtain rfl := Except.ok.inj selected
    exact List.filter_sublist

/-- **The scopes of the exported files**: their names, the modules of the peripherals, the instances
as constants and as members, and the scopes of each module. -/
structure FilesScoped (ps : List Peripheral) (files : List SourceFile) : Prop where
  files : (files.map (·.name)).Nodup
  modules : Scoped ((ps.map ModuleDecl.ofPeripheral).map (·.name))
  instanceConstants : Scoped ((ps.filterMap Instance.ofPeripheral?).map fun i =>
    Name.constantCase i.name)
  instanceMembers : Scoped ((ps.filterMap Instance.ofPeripheral?).map fun i =>
    Name.snakeCase i.name)
  each : ∀ p ∈ ps, (ModuleDecl.ofPeripheral p).Scoped

theorem instances_sublist (ps : List Peripheral) :
    ((ps.filterMap Instance.ofPeripheral?).map (·.name)).Sublist (ps.map (·.name)) := by
  induction ps with
  | nil => exact List.Sublist.refl _
  | cons p rest ih =>
      rw [List.filterMap_cons]
      cases own : Instance.ofPeripheral? p with
      | none => exact ih.cons _
      | some i =>
          obtain ⟨s, -, rfl⟩ := Option.map_eq_some_iff.mp own
          exact ih.cons_cons _

/-- **The files of the modules** have names of their own, and none is that of the root file. -/
theorem fileNames_distinct {d : Device} {o : Options} {ps : List Peripheral}
    (modules : Scoped (ps.map fun p => Name.snakeCase p.name)) :
    ((fileLines d o ps).map (·.name)).Nodup := by
  unfold fileLines
  split
  · exact List.nodup_singleton _
  · rw [List.map_cons, List.map_map]
    have names : ps.map ((·.name) ∘ fun p => FileLines.mk (fileName (Name.snakeCase p.name))
        (moduleLines d p)) = (ps.map fun p => Name.snakeCase p.name).map fileName := by
      simp only [List.map_map, Function.comp_def]
    rw [names]
    refine List.nodup_cons.mpr ⟨fun root => ?_, ?_⟩
    · obtain ⟨n, hn, same⟩ := List.mem_map.mp root
      obtain rfl : n = "mod" := (String.append_left_inj ".rs").mp same
      exact (modules.declarable _ hn).2 (by decide)
    · exact modules.distinct.map fun a b same => (String.append_left_inj ".rs").mp same

/-- **The scopes of an exported map**, for every well-formed map and all options. -/
theorem Exports.scoped {d : Device} (wellFormed : d.WellFormed) {o : Options}
    {ps : List Peripheral} {files : List SourceFile} (h : Exports d o ps files) :
    FilesScoped ps files := by
  have some := h.sublist
  have known : ∀ p ∈ ps, p.WellFormed := fun p hp => wellFormed.peripherals p (some.subset hp)
  have cased {change : String → String} (isCase : Name.IsCase change) {names : List String}
      (fewer : names.Sublist (ps.map (·.name))) : Scoped (names.map change) := by
    refine scoped_of_apart isCase (fun n hn => ?_) ?_
    · obtain ⟨p, hp, rfl⟩ := List.mem_map.mp (fewer.subset hn)
      exact (known p hp).identifier
    · exact ((fewer.trans (some.map _)).map Name.looseKey).nodup wellFormed.apart
  have modules := cased Name.isCase_snakeCase (List.Sublist.refl _)
  have constants := cased Name.isCase_constantCase (instances_sublist ps)
  have members := cased Name.isCase_snakeCase (instances_sublist ps)
  simp only [List.map_map, Function.comp_def] at modules constants members
  refine ⟨?_, ?_, constants, members, fun p hp => ofPeripheral_scoped (known p hp)⟩
  · rw [h.files, List.map_map]
    exact fileNames_distinct modules
  · simp only [ModuleDecl.ofPeripheral, List.map_map, Function.comp_def]
    exact modules

/-- **The source of every map that a document has** keeps to its scopes, whatever the options
are. -/
theorem ofText_scoped {text : String} {checked : Map.Checked} (h : Map.ofText text = .ok checked)
    {o : Options} {files : List SourceFile} (exported : exportMap checked.device o = .ok files) :
    ∃ ps, Exports checked.device o ps files ∧ FilesScoped ps files := by
  obtain ⟨device, wellFormed, rfl⟩ := Map.exists_wellFormed h
  obtain ⟨ps, exports⟩ := exports_of_exportMap exported
  exact ⟨ps, exports, exports.scoped wellFormed⟩

/-- Without a selection every map is exported. -/
theorem exists_exportMap_default (d : Device) : ∃ files, exportMap d .default = .ok files :=
  ⟨_, rfl⟩

/-- In the sample, two registers differ in case only and have one type each. -/
theorem ofText_scoped_sample : ∃ checked files, Map.ofText Map.sample = .ok checked ∧
    exportMap checked.device .default = .ok files ∧
    (∃ ps, Exports checked.device .default ps files ∧ FilesScoped ps files) := by
  obtain ⟨checked, h, -⟩ := Map.ofText_sample
  obtain ⟨files, exported⟩ := exists_exportMap_default checked.device
  exact ⟨checked, files, h, exported, ofText_scoped h exported⟩

end ChipMap.Source
