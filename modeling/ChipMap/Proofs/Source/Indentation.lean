import ChipMap.Proofs.Source.Arrangement
import ChipMap.Proofs.Source.Nesting
import ChipMap.Proofs.Source.Terse

/-!
# Indentation

The options say what one level of nesting looks like.  **They say no more than that**
(`ofText_reindented`): two exports of a map that differ in the indentation only have the same files,
and the lines of a file are the same texts at the same depths in both, each behind its own margin.

### What is load-bearing

A line of source may become several lines of text only where it holds a line feed, and the vendor
and the version of a map are the only texts that may hold one; so this is assumed of them.  The
depths are not any numbers that fit both files: they are those that the brackets of the file call
for, from no level at its start to no level at its end (`tidy_fileLines`).

Modules are known to be tidy and of one line (`tidy_items`, `items_oneLine`).  What is left are the
lines around them: the head of a file, the declarations of modules, and the pointers in each of
their forms.
-/

namespace ChipMap.Source

open Map (Device Peripheral)
open Name (IsBare isBare_snakeCase isBare_camelCase isBare_constantCase)

/-! ### Lines outside of modules are tidy -/

theorem tidy_header (d : Device) : Tidy (header d) := by
  have first : Tidy [line "// Generated by xtask svd-gen", line "//",
      line ("// Device: " ++ d.name)] :=
    .cons (by decide) (.cons (by decide) (tidy_line (plain_comment (by simp))))
  refine (first.append ?_).append ?_
  · exact .map fun v _ => plain_comment (by simp)
  · exact .map fun v _ => plain_comment (by simp)

section Pointers

variable (visibility : Visibility) (instances : List Instance)

theorem tidy_constantLines : Tidy (instances.map (Instance.constantLine visibility.keyword)) := by
  refine .map fun i _ => ?_
  have starts : Starts (visibility.keyword ++ "const " ++ Name.constantCase i.name ++ ": " ++
      i.pointer ++ " = " ++ i.value) := by
    iterate 5 apply starts_append
    exact starts_of_visibility visibility (by decide)
  exact edges_code starts (by decide)

theorem tidy_memberLines (deviceType : String) :
    Tidy (memberLines visibility.keyword deviceType instances) := by
  have member (name : String) : Starts (Name.snakeCase name ++ ": ") :=
    starts_of_isBare (isBare_snakeCase name) (by decide)
  have type : Starts (visibility.keyword ++ "struct " ++ deviceType) :=
    starts_append (starts_of_visibility visibility (by decide))
  have impl : Starts ("impl " ++ deviceType) := starts_append (by decide)
  have types : Tidy (instances.map fun i =>
      line (visibility.keyword ++ Name.snakeCase i.name ++ ": " ++ i.pointer ++ ",")) := by
    refine .map fun i _ => edges_code (starts_append ?_) (by decide)
    rw [String.append_assoc]
    exact starts_of_visibility visibility (member i.name)
  have values : Tidy (instances.map fun i =>
      line (Name.snakeCase i.name ++ ": " ++ i.value ++ ",")) :=
    .map fun i _ => edges_code (starts_append (member i.name)) (by decide)
  refine .append ?_ (.cons (by decide) ?_)
  · exact .enclosed '\x7d' (edges_code type (by decide)) (by decide) types
  · refine .enclosed '\x7d' (edges_code impl (by decide)) (by decide) ?_
    exact .enclosed '\x7d' (by decide) (by decide) (.enclosed '\x7d' (by decide) (by decide) values)

theorem tidy_associatedLines (deviceType : String) :
    Tidy (associatedLines visibility.keyword deviceType instances) := by
  have type : Starts (visibility.keyword ++ "struct " ++ deviceType) :=
    starts_append (starts_of_visibility visibility (by decide))
  have impl : Starts ("impl " ++ deviceType) := starts_append (by decide)
  refine .cons (edges_code type (by decide)) (.cons (by decide) ?_)
  exact .enclosed '\x7d' (edges_code impl (by decide)) (by decide)
    (tidy_constantLines visibility instances)

end Pointers

theorem tidy_instanceLines (o : Options) (deviceName : String) (instances : List Instance) :
    Tidy (instanceLines o deviceName instances) := by
  unfold instanceLines
  split
  · exact tidy_nil
  · split
    · refine .cons (by decide) (.cons (plain_comment (by simp)) ?_)
      split
      · exact tidy_memberLines o.visibility instances _
      · exact tidy_associatedLines o.visibility instances _
    · exact .cons (by decide) (tidy_constantLines o.visibility instances)

/-- The module of a peripheral inside a file with others. -/
theorem tidy_inlineModule (visibility : Visibility) {p : Peripheral} (wellFormed : p.WellFormed) :
    Tidy (inlineModule visibility.keyword p) := by
  have starts : Starts (visibility.keyword ++ "mod " ++ (ModuleDecl.ofPeripheral p).name) :=
    starts_append (starts_of_visibility visibility (by decide))
  refine .cons (by decide) (.enclosed '\x7d' (edges_code starts (by decide)) (by decide) ?_)
  exact tidy_items (ofPeripheral_scoped wellFormed)

/-- **The lines of every file are tidy.** -/
theorem tidy_fileLines (d : Device) (o : Options) {ps : List Peripheral}
    (wellFormed : ∀ p ∈ ps, p.WellFormed) : ∀ f ∈ fileLines d o ps, Tidy f.lines := by
  have pointers : Tidy (pointerLines d o ps) := tidy_instanceLines o _ _
  unfold fileLines
  split
  · refine List.forall_mem_singleton.mpr (((tidy_header d).append ?_).append pointers)
    exact .flatMap fun p hp => tidy_inlineModule o.visibility (wellFormed p hp)
  · refine List.forall_mem_cons.mpr ⟨?_, List.forall_mem_map.mpr fun p hp => ?_⟩
    · have modules : Tidy (blank :: ps.map fun p =>
          line (o.visibility.keyword ++ "mod " ++ Name.snakeCase p.name ++ ";")) := by
        refine .cons (by decide) (.map fun p _ => edges_code (starts_append ?_) (by decide))
        exact starts_of_visibility o.visibility (by decide)
      exact ((tidy_header d).append modules).append pointers
    · have items := tidy_items (ofPeripheral_scoped (wellFormed p hp))
      exact (tidy_header d).append (.cons (by decide) items)

/-! ### Lines outside of modules are of one line -/

/-- Lines that each become one line of text, which may be empty.  Lines outside of modules include
blank ones. -/
def OneLined (lines : List Line) : Prop := ∀ l ∈ lines, OneLine l.text

theorem OneLiners.oneLined {lines : List Line} (h : OneLiners lines) : OneLined lines :=
  fun l hl => (h l hl).2

@[simp] theorem oneLined_nil : OneLined [] := List.forall_mem_nil _

@[simp] theorem oneLined_cons {l : Line} {rest : List Line} :
    OneLined (l :: rest) ↔ OneLine l.text ∧ OneLined rest := List.forall_mem_cons

@[simp] theorem oneLined_append {a b : List Line} :
    OneLined (a ++ b) ↔ OneLined a ∧ OneLined b := List.forall_mem_append

@[simp] theorem oneLined_nested {lines : List Line} : OneLined (nested lines) ↔ OneLined lines :=
  List.forall_mem_map

@[simp] theorem oneLined_map {α : Type} {f : α → String} {items : List α} :
    OneLined (items.map fun x => line (f x)) ↔ ∀ x ∈ items, OneLine (f x) := List.forall_mem_map

theorem oneLined_flatMap {α : Type} {f : α → List Line} {items : List α}
    (h : ∀ x ∈ items, OneLined (f x)) : OneLined (items.flatMap f) := by
  intro l hl
  obtain ⟨x, hx, hl⟩ := List.mem_flatMap.mp hl
  exact h x hx l hl

theorem oneLine_of_isIdentifier {name : String} (h : Name.IsIdentifier name) : OneLine name :=
  oneLine_of_isBare (List.all_eq_true.mp h.1)

theorem oneLine_keyword (visibility : Visibility) : OneLine visibility.keyword := by
  cases visibility <;> decide

theorem oneLine_instance {p : Peripheral} {i : Instance} (h : Instance.ofPeripheral? p = some i) :
    OneLine i.pointer ∧ OneLine i.value := by
  obtain ⟨s, first, rfl⟩ := Option.map_eq_some_iff.mp h
  obtain ⟨b, hb, rfl⟩ := List.mem_map.mp (List.mem_of_head? first)
  have struct : OneLine b.declaration.name := by
    rw [declaration_name]
    exact oneLine_of_isBare ((shapePeripheral_isBare p).2 b hb).name
  have module := oneLine_of_isBare (isBare_snakeCase p.name)
  have address := oneLine_of_isBare (isBare_constantCase p.name)
  simp +decide [struct, module, addressName, address]

theorem oneLined_instanceLines (o : Options) {deviceName : String} (name : OneLine deviceName)
    {instances : List Instance} (h : ∀ i ∈ instances, OneLine i.pointer ∧ OneLine i.value) :
    OneLined (instanceLines o deviceName instances) := by
  have visibility := oneLine_keyword o.visibility
  have type := oneLine_of_isBare (isBare_camelCase deviceName)
  have snake (name : String) := oneLine_of_isBare (isBare_snakeCase name)
  have upper (name : String) := oneLine_of_isBare (isBare_constantCase name)
  have constants : OneLined (instances.map (Instance.constantLine o.visibility.keyword)) := by
    refine oneLined_map.mpr fun i hi => ?_
    obtain ⟨pointer, value⟩ := h i hi
    simp +decide [visibility, upper, pointer, value]
  have types : ∀ i ∈ instances, OneLine i.pointer := fun i hi => (h i hi).1
  have values : ∀ i ∈ instances, OneLine i.value := fun i hi => (h i hi).2
  unfold instanceLines
  dsimp only
  split
  · exact oneLined_nil
  · split
    · split
      · simpa +decide [blank, memberLines, enclosed, name, type, visibility, snake] using
          And.intro types values
      · simp +decide [blank, associatedLines, enclosed, name, type, visibility, constants]
    · exact oneLined_cons.mpr ⟨by decide, constants⟩

theorem oneLined_inlineModule (visibility : Visibility) (p : Peripheral) :
    OneLined (inlineModule visibility.keyword p) := by
  have module := oneLine_of_isBare (isBare_snakeCase p.name)
  have items := (items_oneLine p).oneLined
  simp +decide [inlineModule, blank, enclosed, ofPeripheral_name, oneLine_keyword, module, items]

section Files

variable {d : Device} (name : Name.IsIdentifier d.name)

include name

theorem oneLine_deviceNameOf (o : Options) : OneLine (deviceNameOf d o) := by
  refine oneLine_of_isIdentifier ?_
  unfold deviceNameOf
  cases given : o.deviceName.bind Name.identifier? with
  | none => exact name
  | some id =>
      obtain ⟨wanted, -, given⟩ := Option.bind_eq_some_iff.mp given
      exact Name.isIdentifier_of_identifier? given

/-- **The lines of every file are of one line** where the vendor and the version of the map are. -/
theorem oneLined_fileLines (vendor : ∀ v ∈ d.vendor, OneLine v)
    (version : ∀ v ∈ d.version, OneLine v) (o : Options) (ps : List Peripheral) :
    ∀ f ∈ fileLines d o ps, OneLined f.lines := by
  have header : OneLined (header d) := by
    have vendors : ∀ v ∈ d.vendor.toList, OneLine v := fun v hv => vendor v (Option.mem_toList.mp hv)
    have versions : ∀ v ∈ d.version.toList, OneLine v :=
      fun v hv => version v (Option.mem_toList.mp hv)
    have device := oneLine_of_isIdentifier name
    unfold Source.header
    refine oneLined_append.mpr ⟨oneLined_append.mpr ⟨by simp +decide [device], ?_⟩, ?_⟩
    · exact oneLined_map.mpr fun v hv => oneLine_append.mpr ⟨by decide, vendors v hv⟩
    · exact oneLined_map.mpr fun v hv => oneLine_append.mpr ⟨by decide, versions v hv⟩
  have pointers : OneLined (pointerLines d o ps) := by
    refine oneLined_instanceLines o (oneLine_deviceNameOf name o) fun i hi => ?_
    obtain ⟨p, -, made⟩ := List.mem_filterMap.mp hi
    exact oneLine_instance made
  unfold fileLines
  split
  · have modules : OneLined (ps.flatMap (inlineModule o.visibility.keyword)) :=
      oneLined_flatMap fun p _ => oneLined_inlineModule o.visibility p
    simp [combinedLines, header, modules, pointers]
  · have declared (p : Peripheral) := oneLine_of_isBare (isBare_snakeCase p.name)
    have items (p : Peripheral) := (items_oneLine p).oneLined
    simp +decide [rootLines, moduleLines, blank, header, pointers, oneLine_keyword, declared, items]

end Files

/-! ### Two indentations -/

/-- **A file in two indentations.**  Its lines are texts at depths, which are the same in both, and
a line that is not blank is its text behind one unit for each level. -/
structure Reindented (unit unit' : String) (f f' : SourceFile) (lines : List Line) : Prop where
  name : f.name = f'.name
  own : splitLines f.contents.toList = lines.map (Line.chars unit)
  other : splitLines f'.contents.toList = lines.map (Line.chars unit')
  /-- A text has no indentation of its own. -/
  flush : ∀ l ∈ lines, Flush l.text
  /-- Every level that is opened is closed, and a line is as deep as there are levels open. -/
  closed : levelsBehind? [] lines = some []

/-- **A map in two indentations**: both exports fail alike, or both have the same files in the same
order. -/
def ExportsReindented (d : Device) (o : Options) (i i' : Indentation) : Prop :=
  (∃ fault, exportMap d { o with indentation := i } = .error fault ∧
      exportMap d { o with indentation := i' } = .error fault) ∨
    ∃ files files', exportMap d { o with indentation := i } = .ok files ∧
      exportMap d { o with indentation := i' } = .ok files' ∧
      List.Forall₂ (fun f f' => ∃ lines, Reindented i.unit i'.unit f f' lines) files files'

theorem Tidy.reindented {f : FileLines} (tidy : Tidy f.lines) (oneLined : OneLined f.lines)
    (i i' : Indentation) :
    Reindented i.unit i'.unit (f.render i.unit) (f.render i'.unit) f.lines where
  name := rfl
  own := splitLines_renderLines oneLined i
  other := splitLines_renderLines oneLined i'
  flush := tidy.flush
  closed := tidy.nests.closed

/-- **The export of a well-formed map in two indentations**, when its vendor and its version are of
one line. -/
theorem exportMap_reindented {d : Device} (wellFormed : d.WellFormed)
    (vendor : ∀ v ∈ d.vendor, OneLine v) (version : ∀ v ∈ d.version, OneLine v) (o : Options)
    (i i' : Indentation) : ExportsReindented d o i i' := by
  unfold ExportsReindented
  rw [exportMap_eq, exportMap_eq]
  dsimp only
  cases selected : select d o.selected with
  | error fault => exact .inl ⟨fault, rfl, rfl⟩
  | ok ps =>
      have some : ps.Sublist d.peripherals := Exports.sublist (o := o) ⟨selected, rfl⟩
      have known : ∀ p ∈ ps, p.WellFormed := fun p hp => wellFormed.peripherals p (some.subset hp)
      have tidy := tidy_fileLines d o known
      have oneLined := oneLined_fileLines wellFormed.identifier vendor version o ps
      refine .inr ⟨_, _, rfl, rfl, ?_⟩
      -- The lines of the files do not depend on the indentation.
      change List.Forall₂ _ ((fileLines d o ps).map _) ((fileLines d o ps).map _)
      rw [List.forall₂_map_left_iff, List.forall₂_map_right_iff, List.forall₂_same]
      exact fun f hf => ⟨f.lines, (tidy f hf).reindented (oneLined f hf) i i'⟩

/-- **The source of every map that a document has is the same in two indentations**, whatever the
other options are, when the vendor and the version are of one line. -/
theorem ofText_reindented {text : String} {checked : Map.Checked}
    (h : Map.ofText text = .ok checked) (vendor : ∀ v ∈ checked.device.vendor, OneLine v)
    (version : ∀ v ∈ checked.device.version, OneLine v) (o : Options) (i i' : Indentation) :
    ExportsReindented checked.device o i i' := by
  obtain ⟨device, wellFormed, rfl⟩ := Map.exists_wellFormed h
  exact exportMap_reindented wellFormed vendor version o i i'

/-- The labelled document has a vendor of one line; it has the same source with tabs and without any
indentation. -/
theorem ofText_reindented_labelled : ∃ checked files files', Map.ofText labelled = .ok checked ∧
    (∀ v ∈ checked.device.vendor, OneLine v) ∧ (∀ v ∈ checked.device.version, OneLine v) ∧
    exportMap checked.device { Options.default with indentation := .tabs } = .ok files ∧
    exportMap checked.device { Options.default with indentation := .spaces 0 } = .ok files' ∧
    List.Forall₂ (fun f f' => ∃ lines, Reindented "\t" "" f f' lines) files files' := by
  obtain ⟨checked, h, device⟩ := ofText_labelled
  have vendor : ∀ v ∈ checked.device.vendor, OneLine v := by
    rw [device]
    rintro _ ⟨⟩
    decide
  have version : ∀ v ∈ checked.device.version, OneLine v := by
    rw [device]
    exact nofun
  rcases ofText_reindented h vendor version .default .tabs (.spaces 0) with
    ⟨fault, failed, -⟩ | ⟨files, files', done, done', same⟩
  · cases failed
  · exact ⟨checked, files, files', h, vendor, version, done, done', same⟩

end ChipMap.Source
