import ChipMap.Proofs.Source.Scopes

/-!
# Selections

The options select peripherals by a list of names, in which names may be repeated or unknown.  **A
selection has the peripherals that it names, once each and in the order of the map, and what is
exported of one peripheral does not depend on the others** (`ofText_selective`).

### What is load-bearing

A peripheral is shaped without anything that was shaped before, so the file of a module is a
function of the map's header and of the peripheral (`moduleLines`).  That a file is found by its
name in the export of the whole map rests on the names of files, which are distinct in a well-formed
map only (`Exports.scoped`).

Names are looked up as they are in the map, after collisions were resolved, and not as they are in
the document.  The first name that is unknown is the one that is reported, with all names that are
known.
-/

namespace ChipMap.Source

open Map (Device Peripheral)

section Names

variable {d : Device} {selected : List String}

def peripheralNames (d : Device) : List String := d.peripherals.map (·.name)

/-- **The first name of a selection that no peripheral has.** -/
def FirstUnknown (d : Device) (selected : List String) (name : String) : Prop :=
  name ∉ peripheralNames d ∧
    ∃ before after, selected = before ++ name :: after ∧ ∀ n ∈ before, n ∈ peripheralNames d

theorem any_name_eq_false_iff {name : String} :
    (!d.peripherals.any fun p => p.name == name) = true ↔ name ∉ peripheralNames d := by
  simp [peripheralNames]

/-- **A selection fails with the first unknown name**, and lists all known ones. -/
theorem select_eq_error_iff {fault : ExportFault} :
    select d selected = .error fault ↔
      ∃ name, FirstUnknown d selected name ∧
        fault = .unknownPeripheral name (peripheralNames d) := by
  have first (name : String) :
      (selected.find? fun name => !d.peripherals.any fun p => p.name == name) = some name ↔
        FirstUnknown d selected name := by
    simp only [List.find?_eq_some_iff_append, any_name_eq_false_iff, FirstUnknown]
    simp [peripheralNames]
  unfold select
  split
  · next name found =>
    refine ⟨fun h => ⟨name, (first name).mp found, (Except.error.inj h).symm⟩, ?_⟩
    rintro ⟨other, unknown, rfl⟩
    obtain rfl := Option.some.inj (found.symm.trans ((first other).mpr unknown))
    rfl
  · next none =>
    refine ⟨nofun, ?_⟩
    rintro ⟨name, unknown, -⟩
    exact nomatch none.symm.trans ((first name).mpr unknown)

/-- **A selection of known names** has the peripherals that it names; an empty one has all. -/
theorem select_eq_ok_iff {ps : List Peripheral} :
    select d selected = .ok ps ↔ (∀ name ∈ selected, name ∈ peripheralNames d) ∧
      ps = d.peripherals.filter fun p => selected.isEmpty || selected.contains p.name := by
  have known : (selected.find? fun name => !d.peripherals.any fun p => p.name == name) = none ↔
      ∀ name ∈ selected, name ∈ peripheralNames d := by
    simp only [List.find?_eq_none, any_name_eq_false_iff, not_not]
  unfold select
  split
  · next name found =>
    refine ⟨nofun, fun h => ?_⟩
    exact nomatch found.symm.trans (known.mpr h.1)
  · next none =>
    refine ⟨fun h => ⟨known.mp none, (Except.ok.inj h).symm⟩, ?_⟩
    rintro ⟨-, rfl⟩
    rfl

end Names

/-! ### Exports of a selection -/

/-- **What a selection exports**: peripherals of the map, and files that are made of these. -/
structure Selects (d : Device) (o : Options) (ps : List Peripheral) (files : List SourceFile) :
    Prop where
  exports : Exports d o ps files
  /-- The peripherals are those that are named, or all without a name. -/
  chosen : ∀ p, p ∈ ps ↔ p ∈ d.peripherals ∧ (o.selected = [] ∨ p.name ∈ o.selected)
  /-- Each is exported once. -/
  once : (ps.map (·.name)).Nodup
  /-- They are in the order of the map. -/
  order : ps.Sublist d.peripherals
  /-- The files are those of a map with nothing but these peripherals. -/
  alone : exportMap { d with peripherals := ps } { o with selected := [] } = .ok files

/-- **A selection keeps files** when each of its files but the root file is the only one of its name
in the export of the whole map.  The root file lists modules, so it depends on the selection. -/
def KeepsFiles (d : Device) (o : Options) (files : List SourceFile) : Prop :=
  ∃ all, exportMap d { o with selected := [] } = .ok all ∧
    ∀ f ∈ files, f.name ≠ "mod.rs" → f ∈ all ∧ ∀ g ∈ all, g.name = f.name → g = f

/-- **An export that keeps to the selection.** -/
structure Selective (d : Device) (o : Options) : Prop where
  /-- A selection fails exactly when a name in it is unknown. -/
  fails : (∃ fault, exportMap d o = .error fault) ↔ ∃ name ∈ o.selected, name ∉ peripheralNames d
  /-- It fails with the first unknown name and all known ones. -/
  reports : ∀ fault, exportMap d o = .error fault ↔
    ∃ name, FirstUnknown d o.selected name ∧ fault = .unknownPeripheral name (peripheralNames d)
  /-- A selection of known names is exported. -/
  selects : (∀ name ∈ o.selected, name ∈ peripheralNames d) →
    ∃ ps files, exportMap d o = .ok files ∧ Selects d o ps files ∧
      (o.arrangement = .perPeripheral → KeepsFiles d o files)

section Export

variable {d : Device} {o : Options}

/-- A map fails to be exported when its peripherals fail to be selected. -/
theorem exportMap_eq_error_iff {fault : ExportFault} :
    exportMap d o = .error fault ↔ select d o.selected = .error fault := by
  rw [exportMap_eq]
  cases select d o.selected <;> simp [Except.map]

theorem exportMap_all (d : Device) (o : Options) : exportMap d { o with selected := [] } =
    .ok ((fileLines d o d.peripherals).map (FileLines.render o.indentation.unit)) := by
  have all : select d [] = .ok d.peripherals := by
    rw [select_eq_ok_iff]
    exact ⟨List.forall_mem_nil _, (List.filter_eq_self.mpr fun _ _ => rfl).symm⟩
  rw [exportMap_eq]
  dsimp only
  rw [all]
  rfl

variable {ps : List Peripheral} {files : List SourceFile}

theorem Exports.once (wellFormed : d.WellFormed) (h : Exports d o ps files) :
    (ps.map (·.name)).Nodup :=
  (h.sublist.map _).nodup (List.Nodup.of_map _ wellFormed.apart)

/-- **The export of known names** has the named peripherals. -/
theorem Exports.selects (wellFormed : d.WellFormed) (h : Exports d o ps files) :
    Selects d o ps files := by
  obtain ⟨-, chosen⟩ := select_eq_ok_iff.mp h.selected
  refine ⟨h, fun p => ?_, h.once wellFormed, h.sublist, ?_⟩
  · rw [chosen]
    simp
  · rw [exportMap_all, h.files]
    rfl

/-- **The file of a module is the one in the export of the whole map.** -/
theorem Exports.keepsFiles (wellFormed : d.WellFormed) (h : Exports d o ps files)
    (each : o.arrangement = .perPeripheral) : KeepsFiles d o files := by
  have whole := exportMap_all d o
  have distinct : (((fileLines d o d.peripherals).map
      (FileLines.render o.indentation.unit)).map (·.name)).Nodup := by
    obtain ⟨all, exports⟩ := exports_of_exportMap whole
    exact (exports.scoped wellFormed).files
  refine ⟨_, whole, fun f hf other => ?_⟩
  have kept : f ∈ (fileLines d o d.peripherals).map (FileLines.render o.indentation.unit) := by
    rw [h.files, fileLines, each] at hf
    rw [fileLines, each]
    rcases List.mem_cons.mp hf with rfl | hf
    · exact absurd rfl other
    · refine List.mem_cons_of_mem _ (List.Sublist.subset ?_ hf)
      exact (h.sublist.map _).map _
  exact ⟨kept, fun g hg same => List.inj_on_of_nodup_map distinct hg kept same⟩

/-- **The export of a well-formed map** keeps to the selection. -/
theorem exportMap_selective (wellFormed : d.WellFormed) (o : Options) : Selective d o := by
  refine ⟨⟨?_, ?_⟩, fun fault => ?_, fun known => ?_⟩
  · rintro ⟨fault, failed⟩
    obtain ⟨name, ⟨unknown, before, after, parts, -⟩, -⟩ :=
      select_eq_error_iff.mp (exportMap_eq_error_iff.mp failed)
    exact ⟨name, parts ▸ by simp, unknown⟩
  · rintro ⟨name, named, unknown⟩
    cases selected : select d o.selected with
    | error fault => exact ⟨fault, exportMap_eq_error_iff.mpr selected⟩
    | ok ps => exact absurd ((select_eq_ok_iff.mp selected).1 name named) unknown
  · rw [exportMap_eq_error_iff, select_eq_error_iff]
  · have selected := select_eq_ok_iff.mpr ⟨known, rfl⟩
    have exports : Exports d o _ _ := ⟨selected, rfl⟩
    refine ⟨_, _, ?_, exports.selects wellFormed, exports.keepsFiles wellFormed⟩
    rw [exportMap_eq, selected]
    rfl

end Export

/-- **The export of every map that a document has** keeps to the selection, whatever names the
options hold. -/
theorem ofText_selective {text : String} {checked : Map.Checked}
    (h : Map.ofText text = .ok checked) (o : Options) : Selective checked.device o := by
  obtain ⟨device, wellFormed, rfl⟩ := Map.exists_wellFormed h
  exact exportMap_selective wellFormed o

/-- In the sample, a name is repeated and another one is unknown. -/
theorem ofText_selective_sample : ∃ checked, Map.ofText Map.sample = .ok checked ∧
    Selective checked.device { Options.default with
      arrangement := .perPeripheral
      selected := ["P", "P", "Q"] } := by
  obtain ⟨checked, h, -⟩ := Map.ofText_sample
  exact ⟨checked, h, ofText_selective h _⟩

end ChipMap.Source
