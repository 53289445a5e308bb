import ChipMap.Proofs.Map.Located
import ChipMap.Proofs.Map.OfText
import ChipMap.Proofs.Source.Code
import ChipMap.Proofs.Source.Scopes

/-!
# Texts of a map in the produced source

The texts of a map that name nothing, that is the vendor, the version, the descriptions and the
names for display, go into comments.  **Maps that differ in such texts only are exported with the
same code, but for what the vendor and the version spill** (`exportMap_terse`).

### What is load-bearing

Descriptions and names for display are split into lines, each behind a marker of its own.  The
vendor and the version stand behind one marker as they are, so what follows a line feed in them is
behind no marker (`codeLines_marked`); of one line, they spill nothing (`spilled_eq_nil`).

Two maps are compared through the map without texts that both have (`Device.terse`).  Shaping reads
no text and gives registers back with the texts that they came with, so a step and the step on terse
registers make the same, up to the types that they note (`Mirrors`).  The printer puts texts into
comments only, which is seen line by line once comments are taken out (`uncommented_items`).
-/

namespace ChipMap.Map

/-! ### Maps without texts -/

def EnumCase.terse (c : EnumCase) : EnumCase := { c with description := none }

/-- A field without the descriptions of it and in it. -/
def Field.terse (f : Field) : Field :=
  { f with description := none, cases := f.cases.map EnumCase.terse }

@[simp] theorem Field.terse_name (f : Field) : f.terse.name = f.name := rfl

@[simp] theorem Field.terse_bits (f : Field) : f.terse.bits = f.bits := rfl

@[simp] theorem Field.terse_access (f : Field) : f.terse.access = f.access := rfl

/-- A register without its name for display and the descriptions of it and in it. -/
def Register.terse (r : Register) : Register :=
  { r with displayName := none, description := none, fields := r.fields.map Field.terse }

mutual

/-- A cluster without the texts of it and in it. -/
def Cluster.terse : Cluster → Cluster
  | ⟨name, _, offset, vector, registers, clusters⟩ =>
    ⟨name, none, offset, vector, registers.map Register.terse, terseClusters clusters⟩

/-- Clusters without the texts of them and in them. -/
def terseClusters : List Cluster → List Cluster
  | [] => []
  | c :: rest => c.terse :: terseClusters rest

end

def Interrupt.terse (i : Interrupt) : Interrupt := { i with description := none }

/-- A peripheral without the texts of it and in it. -/
def Peripheral.terse (p : Peripheral) : Peripheral :=
  { p with
    description := none
    interrupts := p.interrupts.map Interrupt.terse
    registers := p.registers.map Register.terse
    clusters := terseClusters p.clusters }

/-- **A device without its vendor, its version and the texts in it**. -/
def Device.terse (d : Device) : Device :=
  { d with
    vendor := none
    version := none
    description := none
    peripherals := d.peripherals.map Peripheral.terse }

end ChipMap.Map

namespace ChipMap.Source

open Map (Device Peripheral Register Cluster Field EnumCase Interrupt)

/-! ### Shaping -/

def Bitfield.terse (b : Bitfield) : Bitfield := { b with register := b.register.terse }

/-- A table without the texts of its types. -/
def TypeTable.terse (t : TypeTable) : TypeTable :=
  { t with bitfields := t.bitfields.map Bitfield.terse }

@[simp] theorem TypeTable.terse_structNames (t : TypeTable) :
    t.terse.structNames = t.structNames := rfl

@[simp] theorem TypeTable.terse_typeNames (t : TypeTable) : t.terse.typeNames = t.typeNames := rfl

/-- **A step of shaping mirrors another** when, without the texts of its types, it makes the same.
What it makes holds names and numbers only, so that part is equal. -/
def Mirrors {α : Type} (c c' : Shaping α) : Prop :=
  ∀ t : TypeTable, c'.run t.terse = ((c.run t).1, (c.run t).2.terse)

namespace Mirrors

variable {α β γ : Type}

theorem pure (a : α) : Mirrors (Pure.pure a) (Pure.pure a) := fun _ => rfl

theorem bind {c c' : Shaping α} {f f' : α → Shaping β} (first : Mirrors c c')
    (next : ∀ a, Mirrors (f a) (f' a)) : Mirrors (c >>= f) (c' >>= f') := by
  intro t
  rw [run_bind, run_bind, first t]
  exact next _ _

theorem mapM {f : α → Shaping β} {f' : γ → Shaping β} {view : α → γ} {items : List α}
    (each : ∀ x, Mirrors (f x) (f' (view x))) :
    Mirrors (items.mapM f) ((items.map view).mapM f') := by
  induction items with
  | nil => exact pure []
  | cons x rest ih =>
      rw [List.map_cons, List.mapM_cons, List.mapM_cons]
      exact (each x).bind fun _ => ih.bind fun _ => pure _

end Mirrors

/-- Whether a register has a type does not depend on texts. -/
theorem hasBitfield_terse (r : Register) : hasBitfield r.terse = hasBitfield r := by
  unfold hasBitfield Register.terse
  dsimp only
  rcases r.fields with _ | ⟨f, _ | ⟨g, rest⟩⟩
  · rfl
  · simp [Field.terse]
  · rfl

theorem claimStruct_mirrors (path : String) : Mirrors (claimStruct path) (claimStruct path) := by
  intro t
  rw [claimStruct_run, claimStruct_run, TypeTable.terse_structNames]
  generalize t.structNames.claim path = claimed
  dsimp only
  generalize Name.camelCase claimed.1 = name
  rfl

theorem claimBitfield_mirrors (lead : String) (r : Register) :
    Mirrors (claimBitfield lead r) (claimBitfield lead r.terse) := by
  intro t
  by_cases h : hasBitfield r = true
  · have name : r.terse.name = r.name := rfl
    rw [claimBitfield_run h, claimBitfield_run ((hasBitfield_terse r).trans h), name,
      TypeTable.terse_typeNames]
    generalize t.typeNames.claim (lead ++ r.name) = claimed
    dsimp only
    generalize Name.camelCase claimed.1 = declared
    simp only [TypeTable.terse, List.map_append, List.map_singleton]
    rfl
  · rw [claimBitfield, claimBitfield, hasBitfield_terse, if_neg h, if_neg h]
    rfl

theorem registerSlots_mirrors (lead : String) (r : Register) :
    Mirrors (registerSlots lead r) (registerSlots lead r.terse) :=
  (claimBitfield_mirrors lead r).bind fun _ => .pure _

theorem shapeBlock_mirrors {inner inner' : Shaping (List Slot × List Block)}
    (h : Mirrors inner inner') (path lead : String) (registers : List Register)
    (stride : Option Nat) :
    Mirrors (shapeBlock path lead registers stride inner)
      (shapeBlock path lead (registers.map Register.terse) stride inner') := by
  refine (claimStruct_mirrors path).bind fun name => ?_
  refine (Mirrors.mapM (registerSlots_mirrors lead)).bind fun own => ?_
  refine h.bind ?_
  rintro ⟨nestedSlots, blocks⟩
  dsimp only
  split
  · exact .pure _
  · exact .pure _

theorem shapeClusters_mirrors (clusters : List Cluster) : ∀ path lead : String,
    Mirrors (shapeClusters path lead clusters)
      (shapeClusters path lead (Map.terseClusters clusters)) := by
  induction clusters using Map.clusters_induct with
  | nil =>
      intro path lead
      rw [Map.terseClusters, shapeClusters]
      exact .pure _
  | cons c rest inner others =>
      intro path lead
      have own : Mirrors (shapeCluster path lead c) (shapeCluster path lead c.terse) := by
        obtain ⟨name, description, offset, vector, registers, clusters⟩ := c
        rw [Map.Cluster.terse, shapeCluster, shapeCluster]
        refine (shapeBlock_mirrors (inner _ _) _ _ registers _).bind fun blocks => ?_
        cases blocks with
        | nil => exact .pure _
        | cons block behind => exact .pure _
      rw [Map.terseClusters, shapeClusters, shapeClusters]
      refine own.bind ?_
      rintro ⟨slots, blocks⟩
      refine (others path lead).bind ?_
      rintro ⟨more, moreBlocks⟩
      exact .pure _

/-- **Without its texts a peripheral has the same structs**, and the same types but for texts. -/
theorem shapePeripheral_terse (p : Peripheral) :
    shapePeripheral p.terse =
      ⟨(shapePeripheral p).blocks, (shapePeripheral p).bitfields.map Bitfield.terse⟩ := by
  have mirrors := shapeBlock_mirrors (shapeClusters_mirrors p.clusters p.name "") p.name "" p.registers
    none .empty
  have same := congrArg (fun made : List Block × TypeTable => Shape.mk made.1 made.2.bitfields) mirrors
  exact same

/-! ### Lines of a module -/

theorem uncommented_interrupt (visibility : String) (i : Interrupt) :
    uncommented ((interruptConstant i.terse).lines visibility) =
      uncommented ((interruptConstant i).lines visibility) := by
  simp only [Constant.lines, interruptConstant, uncommented_append, uncommented_outerDoc]
  rfl

/-- The cases that become variants do not depend on texts. -/
theorem distinctCases_terse (mask : Word) (cases : List EnumCase) : ∀ seen : List Word,
    distinctCases mask seen (cases.map EnumCase.terse) =
      (distinctCases mask seen cases).map (Prod.map EnumCase.terse id) := by
  induction cases with
  | nil => exact fun _ => rfl
  | cons c rest ih =>
      intro seen
      have value : c.terse.value = c.value := rfl
      have ownMask : c.terse.mask = c.mask := rfl
      rw [List.map_cons, distinctCases, distinctCases, value, ownMask]
      cases c.value with
      | none => exact ih seen
      | some value =>
          dsimp only
          split
          · rw [List.map_cons, ih]
            rfl
          · exact ih seen

/-- **The lines of a field** differ in comments. -/
theorem uncommented_field (f : Field) :
    uncommented (FieldDecl.ofField f.terse).lines = uncommented (FieldDecl.ofField f).lines := by
  have cases : distinctCases (Bits.mask ⟨0, f.terse.width⟩) [] f.terse.cases = _ :=
    distinctCases_terse (Bits.mask ⟨0, f.width⟩) f.cases []
  have empty : (variants f.terse).isEmpty = (variants f).isEmpty := by
    rw [variants, variants, cases, List.isEmpty_map, List.isEmpty_map, List.isEmpty_map]
  have lines : uncommented ((variants f.terse).flatMap Variant.lines) =
      uncommented ((variants f).flatMap Variant.lines) := by
    rw [variants, variants, cases]
    simp only [uncommented_flatMap, List.flatMap_map, Variant.lines, uncommented_append,
      uncommented_outerDoc]
    rfl
  unfold FieldDecl.lines FieldDecl.ofField FieldDecl.remark
  dsimp only
  rw [empty, uncommented_append, uncommented_append, uncommented_outerDoc, uncommented_outerDoc,
    Field.terse_name, Field.terse_bits, Field.terse_access]
  refine congrArg ([] ++ ·) (uncommented_cons_congr ?_ _)
  by_cases none : (variants f).isEmpty = true
  · rw [if_pos none, if_pos none]
  · rw [if_neg none, if_neg none]
    exact uncommented_enclosed_congr lines _ _

/-- **The lines of a bitfield type** differ in comments. -/
theorem uncommented_bitfield (b : Bitfield) :
    uncommented b.terse.declaration.lines = uncommented b.declaration.lines := by
  have fields : uncommented (b.terse.declaration.fields.flatMap FieldDecl.lines) =
      uncommented (b.declaration.fields.flatMap FieldDecl.lines) := by
    simp only [Bitfield.declaration, Bitfield.terse, Register.terse, uncommented_flatMap,
      List.flatMap_map, uncommented_field]
  have docs (b : Bitfield) : uncommented (outerDoc b.declaration.docs) = [] :=
    uncommented_outerDoc _
  rw [BitfieldDecl.lines, BitfieldDecl.lines, uncommented_append, uncommented_append, docs, docs]
  exact congrArg ([] ++ ·) (uncommented_enclosed_congr fields _ _)

/-- **The lines of the groups of types** differ in comments, group by group. -/
theorem uncommented_groups (bitfields : List Bitfield) :
    List.Forall₂ (fun g g' => uncommented g'.lines = uncommented g.lines)
      (groupByStorage bitfields) (groupByStorage (bitfields.map Bitfield.terse)) := by
  unfold groupByStorage
  induction Storage.all with
  | nil => exact .nil
  | cons storage rest ih =>
      have types : (bitfields.map Bitfield.terse).filter (fun b => b.storage = storage) =
          (bitfields.filter fun b => b.storage = storage).map Bitfield.terse := List.filter_map
      rw [List.filterMap_cons, List.filterMap_cons, types]
      cases bitfields.filter fun b => b.storage = storage with
      | nil => exact ih
      | cons b others =>
          refine .cons ?_ ih
          refine uncommented_enclosed_congr (uncommented_cons_congr ?_ _) _ _
          simp only [uncommented_flatMap, List.flatMap_map, uncommented_bitfield]

section Modules

variable (p : Peripheral)

theorem structs_terse :
    (ModuleDecl.ofPeripheral p.terse).structs = (ModuleDecl.ofPeripheral p).structs := by
  rw [ModuleDecl.ofPeripheral, shapePeripheral_terse]
  rfl

theorem uncommented_bitsLines :
    uncommented (ModuleDecl.ofPeripheral p.terse).bitsLines =
      uncommented (ModuleDecl.ofPeripheral p).bitsLines := by
  have groups := uncommented_groups (shapePeripheral p).bitfields
  have own : (ModuleDecl.ofPeripheral p.terse).groups =
      groupByStorage ((shapePeripheral p).bitfields.map Bitfield.terse) := by
    rw [ModuleDecl.ofPeripheral, shapePeripheral_terse]
  unfold ModuleDecl.bitsLines
  rw [own]
  show _ = uncommented (if (groupByStorage (shapePeripheral p).bitfields).isEmpty then _ else
    enclosed _ _ (_ ++ (groupByStorage (shapePeripheral p).bitfields).flatMap BitfieldGroup.lines))
  generalize groupByStorage (shapePeripheral p).bitfields = gs at groups
  generalize groupByStorage ((shapePeripheral p).bitfields.map Bitfield.terse) = gs' at groups
  cases groups with
  | nil => rfl
  | @cons g g' rest rest' first later =>
      refine uncommented_enclosed_congr ?_ _ _
      rw [uncommented_append, uncommented_append, List.flatMap_cons, List.flatMap_cons,
        uncommented_append, uncommented_append, first]
      congr 2
      induction later with
      | nil => rfl
      | cons same _ ih =>
          rw [List.flatMap_cons, List.flatMap_cons, uncommented_append, uncommented_append, same, ih]

/-- **The lines of a module** differ in comments. -/
theorem uncommented_items :
    uncommented (ModuleDecl.ofPeripheral p.terse).items =
      uncommented (ModuleDecl.ofPeripheral p).items := by
  have docs (q : Peripheral) : uncommented (innerDoc (ModuleDecl.ofPeripheral q).docs) = [] :=
    uncommented_innerDoc _
  have address : (ModuleDecl.ofPeripheral p.terse).address = (ModuleDecl.ofPeripheral p).address :=
    rfl
  have interrupts : uncommented ((ModuleDecl.ofPeripheral p.terse).interrupts.flatMap
        (Constant.lines "pub ")) =
      uncommented ((ModuleDecl.ofPeripheral p).interrupts.flatMap (Constant.lines "pub ")) := by
    simp only [ModuleDecl.ofPeripheral, Map.Peripheral.terse, uncommented_flatMap, List.flatMap_map,
      uncommented_interrupt]
  have regs : (ModuleDecl.ofPeripheral p.terse).regsLines =
      (ModuleDecl.ofPeripheral p).regsLines := by
    unfold ModuleDecl.regsLines
    rw [structs_terse]
  unfold ModuleDecl.items
  simp only [uncommented_append, docs, address, interrupts, uncommented_bitsLines, regs]

/-- An instance names no text, so the pointers are equal. -/
theorem instance_terse : Instance.ofPeripheral? p.terse = Instance.ofPeripheral? p := by
  unfold Instance.ofPeripheral?
  rw [structs_terse]
  rfl

end Modules

/-! ### Files -/

/-- The files of some peripherals, as lines behind the header. -/
def fileBodies (d : Device) (o : Options) (peripherals : List Peripheral) : List FileLines :=
  match o.arrangement with
  | .combined =>
    [⟨fileName (Name.snakeCase (deviceNameOf d o)),
      peripherals.flatMap (inlineModule o.visibility.keyword) ++ pointerLines d o peripherals⟩]
  | .perPeripheral =>
    ⟨"mod.rs", blank :: (peripherals.map fun p =>
      line (o.visibility.keyword ++ "mod " ++ Name.snakeCase p.name ++ ";")) ++
        pointerLines d o peripherals⟩ ::
      peripherals.map fun p =>
        ⟨fileName (Name.snakeCase p.name), blank :: (ModuleDecl.ofPeripheral p).items⟩

/-- A file without the comments among its lines. -/
def FileLines.bare (f : FileLines) : FileLines := { f with lines := uncommented f.lines }

/-- **Every file begins with the header.** -/
theorem fileLines_eq (d : Device) (o : Options) (ps : List Peripheral) :
    fileLines d o ps = (fileBodies d o ps).map fun f => { f with lines := header d ++ f.lines } := by
  unfold fileLines fileBodies
  cases o.arrangement with
  | combined =>
      rw [combinedLines, List.append_assoc]
      rfl
  | perPeripheral =>
      rw [rootLines, List.append_assoc, List.map_cons, List.map_map]
      rfl

theorem pointerLines_terse (d : Device) (o : Options) (ps : List Peripheral) :
    pointerLines d.terse o (ps.map Peripheral.terse) = pointerLines d o ps := by
  have instances : (ps.map Peripheral.terse).filterMap Instance.ofPeripheral? =
      ps.filterMap Instance.ofPeripheral? := by
    rw [List.filterMap_map]
    exact congrArg (ps.filterMap ·) (funext instance_terse)
  rw [pointerLines, pointerLines, instances]
  rfl

/-- **What follows the header** differs in comments. -/
theorem fileBodies_terse (d : Device) (o : Options) (ps : List Peripheral) :
    (fileBodies d.terse o (ps.map Peripheral.terse)).map FileLines.bare =
      (fileBodies d o ps).map FileLines.bare := by
  unfold fileBodies
  rw [pointerLines_terse]
  cases o.arrangement with
  | combined =>
      have modules : uncommented
            ((ps.map Peripheral.terse).flatMap (inlineModule o.visibility.keyword)) =
          uncommented (ps.flatMap (inlineModule o.visibility.keyword)) := by
        rw [uncommented_flatMap, uncommented_flatMap, List.flatMap_map]
        refine congrArg (ps.flatMap ·) (funext fun p => uncommented_cons_congr ?_ _)
        exact uncommented_enclosed_congr (uncommented_items p) _ _
      simp only [List.map_singleton, FileLines.bare, uncommented_append, modules]
      rfl
  | perPeripheral =>
      have names (p : Peripheral) : p.terse.name = p.name := rfl
      simp only [List.map_cons, List.map_map, Function.comp_def, FileLines.bare, names]
      refine congrArg (_ :: ·) (congrArg (ps.map ·) (funext fun p => ?_))
      rw [uncommented_cons_congr (uncommented_items p)]

/-! ### Texts behind one marker -/

/-- The code that a text spills when it stands behind one marker as it is: that on its lines but the
first. -/
def spill (text : String) : List (List Char) := (text.toList.splitOn '\n').tail.filter isCode

theorem spill_of_not_mem {text : String} (h : '\n' ∉ text.toList) : spill text = [] := by
  rw [spill, List.splitOn_eq_singleton h]
  rfl

/-- **A text behind a marker** is code from its second line on. -/
theorem codeLines_marked {marker : List Char} (comment : ['/', '/'] <+: marker)
    (oneLine : '\n' ∉ marker) (text : String) :
    codeLines (marker ++ text.toList) = spill text := by
  have first {cs : List Char} (h : '\n' ∉ cs) : codeLines (marker ++ cs) = [] := by
    rw [codeLines_of_not_mem (by simp [oneLine, h])]
    obtain ⟨rest, rfl⟩ := comment
    rfl
  by_cases h : '\n' ∈ text.toList
  · obtain ⟨start, rest, parts, oneLine⟩ := List.eq_append_cons_of_mem h
    rw [spill, parts, ← List.append_assoc, codeLines_append, first oneLine,
      List.splitOn_append_cons_self, List.splitOn_eq_singleton oneLine]
    rfl
  · rw [first h, spill_of_not_mem h]

/-- The code that a device spills: that of its vendor and of its version. -/
def spilled (d : Device) : List (List Char) :=
  d.vendor.toList.flatMap spill ++ d.version.toList.flatMap spill

/-- A device whose vendor and version are of one line spills nothing. -/
theorem spilled_eq_nil {d : Device} (vendor : ∀ v ∈ d.vendor, '\n' ∉ v.toList)
    (version : ∀ v ∈ d.version, '\n' ∉ v.toList) : spilled d = [] := by
  have none {text : Option String} (h : ∀ t ∈ text, '\n' ∉ t.toList) :
      text.toList.flatMap spill = [] :=
    List.flatMap_eq_nil_iff.mpr fun t ht => spill_of_not_mem (h t (Option.mem_toList.mp ht))
  rw [spilled, none vendor, none version, List.append_nil]

theorem code_marked (marker : String) (comment : ['/', '/'] <+: marker.toList)
    (oneLine : '\n' ∉ marker.toList) (text indent : String) :
    (line (marker ++ text)).code indent = spill text := by
  have chars : (line (marker ++ text)).chars indent = marker.toList ++ text.toList := by
    obtain ⟨rest, begins⟩ := comment
    have some : (line (marker ++ text)).text.isEmpty = false := by
      simp [line, ← String.toList_inj, ← begins]
    rw [Line.chars, some]
    exact String.toList_append
  rw [Line.code_eq, chars, codeLines_marked comment oneLine]

/-- **The code of the header** is what the texts in it spill. -/
theorem header_code (d : Device) (indent : String) :
    (header d).flatMap (Line.code indent) = spill d.name ++ spilled d := by
  have vendor (text : String) : (line ("// Vendor: " ++ text)).code indent = spill text :=
    code_marked _ (by decide) (by decide) text indent
  have version (text : String) : (line ("// Version: " ++ text)).code indent = spill text :=
    code_marked _ (by decide) (by decide) text indent
  have name : (line ("// Device: " ++ d.name)).code indent = spill d.name :=
    code_marked _ (by decide) (by decide) d.name indent
  have title : (line "// Generated by xtask svd-gen").code indent = [] :=
    code_marked "// " (by decide) (by decide) "Generated by xtask svd-gen" indent
  have gap : (line "//").code indent = [] :=
    code_marked "//" (by decide) (by decide) "" indent
  simp only [header, spilled, List.flatMap_append, List.flatMap_cons, List.flatMap_nil,
    List.flatMap_map, vendor, version, name, title, gap, List.nil_append, List.append_nil,
    List.append_assoc]

/-! ### Exports -/

/-- A file as its name and the lines of it that are code. -/
def SourceFile.code (f : SourceFile) : String × List (List Char) :=
  (f.name, codeLines f.contents.toList)

/-- **The code of a file** is what its header spills and that of the rest of it. -/
theorem Exports.code {d : Device} {o : Options} {ps : List Peripheral} {files : List SourceFile}
    (h : Exports d o ps files) :
    files.map SourceFile.code = ((fileBodies d o ps).map FileLines.bare).map fun f =>
      (f.name, spill d.name ++ spilled d ++ f.lines.flatMap (Line.code o.indentation.unit)) := by
  rw [h.files, fileLines_eq]
  simp only [List.map_map, Function.comp_def, FileLines.render, SourceFile.code, FileLines.bare,
    codeLines_renderLines, List.flatMap_append, header_code, flatMap_code_uncommented]

theorem select_terse (d : Device) (selected : List String) :
    select d.terse selected = (select d selected).map (·.map Peripheral.terse) := by
  have names : d.terse.peripherals.map (·.name) = d.peripherals.map (·.name) := by
    simp only [Map.Device.terse, List.map_map]
    rfl
  have known (name : String) : d.terse.peripherals.any (fun p => p.name == name) =
      d.peripherals.any fun p => p.name == name := by
    simp only [Map.Device.terse, List.any_map]
    rfl
  unfold select
  simp only [known, names]
  split
  · rfl
  · simp only [Except.map, Map.Device.terse, List.filter_map]
    rfl

/-- **The code of the files of a map** depends, but for what is spilled, on the map without
texts. -/
theorem Exports.code_eq_iff {d d' : Device} (same : d.terse = d'.terse) {o : Options}
    {ps ps' : List Peripheral} (selected : ps.map Peripheral.terse = ps'.map Peripheral.terse)
    {files files' : List SourceFile} (h : Exports d o ps files) (h' : Exports d' o ps' files') :
    files.map (·.name) = files'.map (·.name) ∧
      (files.map SourceFile.code = files'.map SourceFile.code ↔ spilled d = spilled d') := by
  have name : d.name = d'.name := congrArg (·.name) same
  have bodies : (fileBodies d o ps).map FileLines.bare = (fileBodies d' o ps').map FileLines.bare := by
    rw [← fileBodies_terse d, ← fileBodies_terse d', same, selected]
  have some : (fileBodies d' o ps').map FileLines.bare ≠ [] := by
    unfold fileBodies
    cases o.arrangement with
    | combined => exact List.cons_ne_nil _ _
    | perPeripheral => exact List.cons_ne_nil _ _
  have names (files : List SourceFile) :
      files.map (·.name) = (files.map SourceFile.code).map Prod.fst := by
    rw [List.map_map]
    rfl
  rw [names, names, h.code, h'.code, bodies, name]
  generalize (fileBodies d' o ps').map FileLines.bare = bodies at some
  refine ⟨?_, fun code => ?_, fun code => ?_⟩
  · rw [List.map_map, List.map_map]
    rfl
  · cases bodies with
    | nil => exact absurd rfl some
    | cons f rest =>
        -- There is a file, and behind its header the two sides are equal.
        have first := (Prod.mk.inj (List.cons.inj code).1).2
        exact List.append_cancel_left (List.append_cancel_right first)
  · rw [code]

/-- **Maps that differ in texts only** have the same fault, or files of the same names; and these
have the same code exactly when the maps spill the same. -/
theorem exportMap_terse {d d' : Device} (same : d.terse = d'.terse) (o : Options) :
    (∃ fault, exportMap d o = .error fault ∧ exportMap d' o = .error fault) ∨
      ∃ files files', exportMap d o = .ok files ∧ exportMap d' o = .ok files' ∧
        files.map (·.name) = files'.map (·.name) ∧
        (files.map SourceFile.code = files'.map SourceFile.code ↔ spilled d = spilled d') := by
  have selected : (select d o.selected).map (·.map Peripheral.terse) =
      (select d' o.selected).map (·.map Peripheral.terse) := by
    rw [← select_terse, ← select_terse, same]
  rw [exportMap_eq, exportMap_eq]
  cases own : select d o.selected with
  | error fault =>
      cases own' : select d' o.selected with
      | error fault' =>
          rw [own, own'] at selected
          exact .inl ⟨fault, rfl, congrArg Except.error (Except.error.inj selected).symm⟩
      | ok ps' =>
          rw [own, own'] at selected
          cases selected
  | ok ps =>
      cases own' : select d' o.selected with
      | error fault' =>
          rw [own, own'] at selected
          cases selected
      | ok ps' =>
          rw [own, own'] at selected
          exact .inr ⟨_, _, rfl, rfl,
            Exports.code_eq_iff same (Except.ok.inj selected) ⟨own, rfl⟩ ⟨own', rfl⟩⟩

/-! ### Documents that differ in texts -/

/-- A document with one register, a vendor of one line and a description of two. -/
def labelled : String :=
  "<device><name>D</name><vendor>ACME</vendor><peripherals><peripheral><name>P</name>
  <description>A port
  of the chip.</description><baseAddress>0</baseAddress>
  <registers><register><name>R</name><addressOffset>0</addressOffset></register></registers>
  </peripheral></peripherals></device>"

/-- The labelled document with a vendor of two lines. -/
def spilling : String :=
  "<device><name>D</name><vendor>ACME
pub struct Injected;</vendor><peripherals><peripheral><name>P</name>
  <description>A port
  of the chip.</description><baseAddress>0</baseAddress>
  <registers><register><name>R</name><addressOffset>0</addressOffset></register></registers>
  </peripheral></peripherals></device>"

/-- A device with one register, with a vendor and a description. -/
def oneRegister (vendor description : Option String) : Device where
  name := "D"
  vendor
  version := none
  description := none
  width := 32
  addressUnitBits := 8
  peripherals :=
    [{ name := "P"
       description
       groupName := none
       baseAddress := 0
       addressRange := ⟨0, 4⟩
       interrupts := []
       registers := [.plain "R" 0 32]
       clusters := [] }]

theorem oneRegister_terse (vendor description : Option String) :
    (oneRegister vendor description).terse = oneRegister none none := rfl

set_option maxRecDepth 4000 in
theorem ofText_labelled : ∃ checked, Map.ofText labelled = .ok checked ∧
    checked.device = oneRegister (some "ACME") (some "A port of the chip.") := by
  have written : labelled = String.ofList _ := rfl
  have read := Description.ofText_eq written
  refine map_eq_ok.mp ?_
  rw [Map.ofText, Map.resolvedOfText, read]
  cbv

set_option maxRecDepth 4000 in
theorem ofText_spilling : ∃ checked, Map.ofText spilling = .ok checked ∧
    checked.device = oneRegister (some "ACME\npub struct Injected;") (some "A port of the chip.") := by
  have written : spilling = String.ofList _ := rfl
  have read := Description.ofText_eq written
  refine map_eq_ok.mp ?_
  rw [Map.ofText, Map.resolvedOfText, read]
  cbv

/-- A vendor of one line and a description of two add no code. -/
theorem exportMap_terse_labelled : ∃ checked files files',
    Map.ofText labelled = .ok checked ∧ checked.device.terse = (oneRegister none none).terse ∧
    exportMap checked.device .default = .ok files ∧
    exportMap (oneRegister none none) .default = .ok files' ∧
    files.map SourceFile.code = files'.map SourceFile.code := by
  obtain ⟨checked, h, device⟩ := ofText_labelled
  have same : checked.device.terse = (oneRegister none none).terse := by
    rw [device, oneRegister_terse, oneRegister_terse]
  have silent : spilled checked.device = spilled (oneRegister none none) := by
    have plain : spilled (oneRegister none none) = [] :=
      spilled_eq_nil (by simp [oneRegister]) (by simp [oneRegister])
    rw [device, plain]
    exact spilled_eq_nil (by simp +decide) (by simp [oneRegister])
  rcases exportMap_terse same .default with ⟨fault, failed, -⟩ | ⟨files, files', done, done', -, code⟩
  · obtain ⟨files, done⟩ := exists_exportMap_default checked.device
    rw [failed] at done
    cases done
  · exact ⟨checked, files, files', h, same, done, done', code.mpr silent⟩

/-- **A vendor of two lines adds code**: its second line. -/
theorem exportMap_spilling : ∃ checked checked' files files',
    Map.ofText labelled = .ok checked ∧ Map.ofText spilling = .ok checked' ∧
    checked.device.terse = checked'.device.terse ∧
    exportMap checked.device .default = .ok files ∧
    exportMap checked'.device .default = .ok files' ∧
    files.map SourceFile.code ≠ files'.map SourceFile.code := by
  obtain ⟨checked, h, device⟩ := ofText_labelled
  obtain ⟨checked', h', device'⟩ := ofText_spilling
  have same : checked.device.terse = checked'.device.terse := by
    rw [device, device', oneRegister_terse, oneRegister_terse]
  obtain ⟨files, done⟩ := exists_exportMap_default checked.device
  obtain ⟨files', done'⟩ := exists_exportMap_default checked'.device
  obtain ⟨ps, exports⟩ := exports_of_exportMap done
  obtain ⟨ps', exports'⟩ := exports_of_exportMap done'
  have selected : ps.map Peripheral.terse = ps'.map Peripheral.terse := by
    have all := exports.selected
    have all' := exports'.selected
    rw [device] at all
    rw [device'] at all'
    rw [← Except.ok.inj all, ← Except.ok.inj all']
    rfl
  have code := (Exports.code_eq_iff same selected exports exports').2
  refine ⟨checked, checked', files, files', h, h', same, done, done', fun alike => ?_⟩
  have spills : spilled checked.device ≠ spilled checked'.device := by
    rw [device, device']
    decide
  exact spills (code.mp alike)

end ChipMap.Source
