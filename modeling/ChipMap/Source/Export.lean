import ChipMap.Options.Basic
import ChipMap.Source.Module

/-!
# Exporting a map

The selected peripherals of a map become modules, in one file or in a file each, together with
pointers to their structs.  What is produced depends on the map and on the options only.

The files are made as lines (`exportLines`), and the unit of indentation enters when the lines
become texts (`exportMap`).

* `SourceFile` — a produced file.
* `ExportFault` — why nothing is produced.
* `select` — the peripherals that the options select.
* `Instance`, `instanceLines` — the pointers to the structs.
* `exportLines`, `exportMap` — the files of a map, as lines and as texts.

### What is load-bearing

A selection keeps the order of the map and takes each peripheral once, however often and in whatever
order it is named.  One unknown name refuses the whole export, and an empty selection takes every
peripheral.

The name of the device in the produced source is free of everything that no identifier has.  The
vendor and the version are written as they are, a line feed in them included.
-/

namespace ChipMap.Source

open Map (Device Peripheral)

/-- A produced file.  Where it is put, and whether under its own name, is up to the delivery. -/
structure SourceFile where
  /-- The name of the file. -/
  name : String
  contents : String
deriving DecidableEq, Repr, Inhabited

/-- Why a map is not exported as asked. -/
inductive ExportFault where
  /-- A selected peripheral is not in the map. -/
  | unknownPeripheral (name : String) (valid : List String)
deriving DecidableEq, Repr, Inhabited

/-- The wording of a fault. -/
def ExportFault.message : ExportFault → String
  | unknownPeripheral name valid =>
    "Unknown peripheral '" ++ name ++ "', valid options: " ++ String.intercalate ", " valid

/-- The selected peripherals, in the order of the map.  Every selected name has to be in the map,
and the first one that is not is reported with the names that are. -/
def select (d : Device) (selected : List String) : Except ExportFault (List Peripheral) :=
  match selected.find? fun name => !d.peripherals.any fun p => p.name == name with
  | some name => .error (.unknownPeripheral name (d.peripherals.map (·.name)))
  | none => .ok (d.peripherals.filter fun p => selected.isEmpty || selected.contains p.name)

/-- The lines that begin every file.  A vendor and a version are named if the device has them. -/
def header (d : Device) : List Line :=
  [line "// Generated by xtask svd-gen", line "//", line ("// Device: " ++ d.name)] ++
    (d.vendor.toList.map fun v => line ("// Vendor: " ++ v)) ++
    (d.version.toList.map fun v => line ("// Version: " ++ v))

/-- A pointer to the struct of a peripheral. -/
structure Instance where
  /-- The name of the peripheral. -/
  name : String
  /-- The type of the pointer. -/
  pointer : String
  /-- The pointer itself. -/
  value : String
deriving DecidableEq, Repr, Inhabited

/-- The pointer to the struct of a peripheral; a peripheral without registers has none.  Its value
is the constant of the peripheral's address, as the module of the peripheral declares it. -/
def Instance.ofPeripheral? (p : Peripheral) : Option Instance :=
  (ModuleDecl.ofPeripheral p).structs.head?.map fun s =>
    let moduleName := Name.snakeCase p.name
    let pointer := "*const " ++ moduleName ++ "::regs::" ++ s.name
    { name := p.name, pointer, value := moduleName ++ "::" ++ addressName p.name ++ " as " ++ pointer }

/-- The constant that holds a pointer, on one line. -/
def Instance.constantLine (visibility : String) (i : Instance) : Line :=
  line (visibility ++ "const " ++ Name.constantCase i.name ++ ": " ++ i.pointer ++ " = " ++
    i.value ++ ";")

/-- The lines of a type of the device whose value holds the pointers.  Each pointer is declared as a
member, and given its value in the constructor. -/
def memberLines (visibility deviceType : String) (instances : List Instance) : List Line :=
  enclosed (visibility ++ "struct " ++ deviceType ++ " \x7b") "\x7d"
      (instances.map fun i =>
        line (visibility ++ Name.snakeCase i.name ++ ": " ++ i.pointer ++ ",")) ++
    blank ::
    enclosed ("impl " ++ deviceType ++ " \x7b") "\x7d"
      (enclosed "pub const fn new() -> Self \x7b" "\x7d"
        (enclosed "Self \x7b" "\x7d"
          (instances.map fun i => line (Name.snakeCase i.name ++ ": " ++ i.value ++ ","))))

/-- The lines of a type of the device that has the pointers as constants.  The type itself has no
members. -/
def associatedLines (visibility deviceType : String) (instances : List Instance) : List Line :=
  [line (visibility ++ "struct " ++ deviceType ++ ";"), blank] ++
    enclosed ("impl " ++ deviceType ++ " \x7b") "\x7d"
      (instances.map (Instance.constantLine visibility))

/-- The lines of the pointers, as constants or as parts of a type that is named after the device.
Without a pointer there is no line. -/
def instanceLines (o : Options) (deviceName : String) (instances : List Instance) : List Line :=
  let visibility := o.visibility.keyword
  if instances.isEmpty then []
  else if o.namespaceUnderDevice then
    let deviceType := Name.camelCase deviceName
    [blank, line ("/// Peripheral instances of " ++ deviceName ++ ".")] ++
      if o.instanceMembers then memberLines visibility deviceType instances
      else associatedLines visibility deviceType instances
  else blank :: instances.map (Instance.constantLine visibility)

/-- The name of the device in the produced source: that of the options if it has an identifier, and
else that of the map.  An unusable name of the options is passed over in silence. -/
def deviceNameOf (d : Device) (o : Options) : String :=
  (o.deviceName.bind Name.identifier?).getD d.name

/-- The lines of the module of a peripheral inside a file with others.  What stands in it is what a
file of its own would hold, one level deeper. -/
def inlineModule (visibility : String) (p : Peripheral) : List Line :=
  let m := ModuleDecl.ofPeripheral p
  blank :: enclosed (visibility ++ "mod " ++ m.name ++ " \x7b") "\x7d" m.items

/-- The lines of the pointers to the structs of some peripherals. -/
def pointerLines (d : Device) (o : Options) (peripherals : List Peripheral) : List Line :=
  instanceLines o (deviceNameOf d o) (peripherals.filterMap Instance.ofPeripheral?)

/-- The lines of a file that holds everything. -/
def combinedLines (d : Device) (o : Options) (peripherals : List Peripheral) : List Line :=
  header d ++ peripherals.flatMap (inlineModule o.visibility.keyword) ++ pointerLines d o peripherals

/-- The lines of the file that names the modules. -/
def rootLines (d : Device) (o : Options) (peripherals : List Peripheral) : List Line :=
  header d ++
    blank :: (peripherals.map fun p =>
      line (o.visibility.keyword ++ "mod " ++ Name.snakeCase p.name ++ ";")) ++
    pointerLines d o peripherals

/-- The lines of a file that holds the module of one peripheral. -/
def moduleLines (d : Device) (p : Peripheral) : List Line :=
  header d ++ blank :: (ModuleDecl.ofPeripheral p).items

/-- A file with its lines, before an indentation is chosen. -/
structure FileLines where
  name : String
  lines : List Line
deriving DecidableEq, Repr, Inhabited

/-- The name of the file for a module. -/
def fileName (moduleName : String) : String := moduleName ++ ".rs"

/-- The files of some peripherals, as lines.  A combined file is named after the device; otherwise
there is a root file that declares the modules, and one file for each of them. -/
def fileLines (d : Device) (o : Options) (peripherals : List Peripheral) : List FileLines :=
  match o.arrangement with
  | .combined =>
    [⟨fileName (Name.snakeCase (deviceNameOf d o)), combinedLines d o peripherals⟩]
  | .perPeripheral =>
    ⟨"mod.rs", rootLines d o peripherals⟩ ::
      peripherals.map fun p => ⟨fileName (Name.snakeCase p.name), moduleLines d p⟩

/-- The files of a map, as lines.  Only the choice of peripherals can fail. -/
def exportLines (d : Device) (o : Options) : Except ExportFault (List FileLines) := do
  let peripherals ← select d o.selected
  return fileLines d o peripherals

/-- A file with the text of its lines. -/
def FileLines.render (indent : String) (f : FileLines) : SourceFile :=
  ⟨f.name, renderLines indent f.lines⟩

/-- The files of a map.  Nothing is produced if a selected peripheral is not in the map. -/
def exportMap (d : Device) (o : Options) : Except ExportFault (List SourceFile) := do
  let files ← exportLines d o
  return files.map (FileLines.render o.indentation.unit)

end ChipMap.Source
