import ChipMap.Source.Line
import ChipMap.Source.Struct
import ChipMap.Word.Bits

/-!
# Modules of peripherals

Every exported peripheral becomes a module that declares its address, its interrupts, a bitfield
type for each register with fields, and a struct for each block of registers.  The declarations are
made first (`ModuleDecl.ofPeripheral`) and printed afterwards (`ModuleDecl.items`), and nothing is
decided while they are printed.

* `Constant`, `Variant`, `FieldDecl`, `BitfieldDecl`, `BitfieldGroup`, `ModuleDecl` — declarations.
* `ModuleDecl.ofPeripheral` — the module of a peripheral.
* `ModuleDecl.items` — the lines of a module.

### What is load-bearing

A field gets a variant for a case when the case has a value and settles every bit of the field.  Of
several such cases with one value the first one counts, as two variants of one value would be an
error of the produced source.

Bitfield types stand in groups, one for each storage that occurs.  A group is a scope of its own
only in the text: all types of a module share one scope of names.
-/

namespace ChipMap.Source

open Map (Peripheral Field EnumCase Interrupt)

/-- A constant of a module, with its type and its value as texts. -/
structure Constant where
  docs : List String
  name : String
  typeName : String
  value : String
deriving DecidableEq, Repr, Inhabited

/-- A named value of a field, as it is written in the list of the field. -/
structure Variant where
  docs : List String
  name : String
  value : Word
deriving DecidableEq, Repr, Inhabited

/-- A field of a bitfield type, with the bits that it takes and the values that have names. -/
structure FieldDecl where
  docs : List String
  name : String
  bits : Span
  access : Access
  variants : List Variant
deriving DecidableEq, Repr, Inhabited

/-- A bitfield type: the fields of one register under a name. -/
structure BitfieldDecl where
  docs : List String
  name : String
  fields : List FieldDecl
deriving DecidableEq, Repr, Inhabited

/-- The bitfield types of one storage, which are declared together. -/
structure BitfieldGroup where
  storage : Storage
  types : List BitfieldDecl
deriving DecidableEq, Repr, Inhabited

/-- The module of a peripheral, with all that is declared in it.  Its lines are made from this
alone. -/
structure ModuleDecl where
  name : String
  docs : List String
  address : Constant
  interrupts : List Constant
  groups : List BitfieldGroup
  /-- The structs, that of the peripheral itself first. -/
  structs : List StructDecl
deriving DecidableEq, Repr, Inhabited

/-! ### Declarations of a peripheral -/

/-- The cases that become variants: those with a value whose every bit takes part, and of those with
one value the first.  `seen` are the values of variants before them.  Whether a case is the default
one is not looked at. -/
def distinctCases (fieldMask : Word) (seen : List Word) : List EnumCase → List (EnumCase × Word)
  | [] => []
  | c :: rest =>
    match c.value with
    | none => distinctCases fieldMask seen rest
    | some value =>
      if c.mask = fieldMask ∧ value ∉ seen then
        (c, value) :: distinctCases fieldMask (value :: seen) rest
      else distinctCases fieldMask seen rest

/-- The variants of a field.  A case counts as settled when its mask is that of the whole field. -/
def variants (f : Field) : List Variant :=
  (distinctCases (Bits.mask ⟨0, f.width⟩) [] f.cases).map fun (c, value) =>
    { docs := docLines c.description, name := Name.camelCase c.name, value }

/-- The declaration of a field.  Its bits and its access are those of the map. -/
def FieldDecl.ofField (f : Field) : FieldDecl where
  docs := docLines f.description
  name := Name.camelCase f.name
  bits := f.bits
  access := f.access
  variants := Source.variants f

/-- The declaration of a bitfield type.  A register without a description is described by the name
it is displayed with. -/
def Bitfield.declaration (b : Bitfield) : BitfieldDecl where
  docs := docLines (b.register.description.or b.register.displayName)
  name := b.name
  fields := b.register.fields.map FieldDecl.ofField

/-- Bitfield types by their storage, the smallest first, without groups that would be empty.  Inside
a group the types keep the order in which their names were given out. -/
def groupByStorage (bitfields : List Bitfield) : List BitfieldGroup :=
  Storage.all.filterMap fun storage =>
    let types := (bitfields.filter fun b => b.storage = storage).map Bitfield.declaration
    if types.isEmpty then none else some { storage, types }

/-- The name of the constant that holds the address of a peripheral.  The pointers to the structs
refer to it by this name. -/
def addressName (peripheral : String) : String := Name.constantCase peripheral ++ "_ADDR"

/-- The constant that holds the address of a peripheral. -/
def addressConstant (p : Peripheral) : Constant where
  docs := []
  name := addressName p.name
  typeName := "usize"
  value := Numeral.hexConstant p.baseAddress.toNat

/-- The constant that holds the number of an interrupt. -/
def interruptConstant (i : Interrupt) : Constant where
  docs := docLines i.description
  name := Name.constantCase i.name ++ "_IRQ"
  typeName := "i32"
  value := toString i.value

/-- The module of a peripheral.  Everything in it depends on the peripheral alone, and not on the
device or the options. -/
def ModuleDecl.ofPeripheral (p : Peripheral) : ModuleDecl :=
  let shape := shapePeripheral p
  { name := Name.snakeCase p.name
    docs := docLines p.description
    address := addressConstant p
    interrupts := p.interrupts.map interruptConstant
    groups := groupByStorage shape.bitfields
    structs := shape.blocks.map Block.declaration }

/-! ### Lines of declarations -/

def Constant.lines (visibility : String) (c : Constant) : List Line :=
  outerDoc c.docs ++
    [line (visibility ++ "const " ++ c.name ++ ": " ++ c.typeName ++ " = " ++ c.value ++ ";")]

def Variant.lines (v : Variant) : List Line :=
  outerDoc v.docs ++ [line (v.name ++ " = " ++ Numeral.hexConstant v.value.toNat ++ ",")]

/-- The remark on a field that names its bits, the highest first, and its access.  It is printed
also for a field without a description. -/
def FieldDecl.remark (f : FieldDecl) : Line :=
  line ("/// Bits [" ++ toString (f.bits.stop - 1) ++ ":" ++ toString f.bits.start ++ "], " ++
    f.access.label)

/-- The lines of a field.  Without variants it is one line behind its comments. -/
def FieldDecl.lines (f : FieldDecl) : List Line :=
  let head :=
    f.name ++ " OFFSET(" ++ toString f.bits.start ++ ") NUMBITS(" ++ toString f.bits.width ++ ")"
  outerDoc f.docs ++ f.remark ::
    if f.variants.isEmpty then [line (head ++ " [],")]
    else enclosed (head ++ " [") "]," (f.variants.flatMap Variant.lines)

def BitfieldDecl.lines (b : BitfieldDecl) : List Line :=
  outerDoc b.docs ++ enclosed ("pub " ++ b.name ++ " [") "]," (b.fields.flatMap FieldDecl.lines)

/-- The lines of the bitfield types of one storage. -/
def BitfieldGroup.lines (g : BitfieldGroup) : List Line :=
  enclosed "register_bitfields! \x7b" "\x7d"
    (line (g.storage.typeName ++ ",") :: g.types.flatMap BitfieldDecl.lines)

/-- The lines of a struct.  All structs but the last have a comma behind them. -/
def StructDecl.lines (isLast : Bool) (s : StructDecl) : List Line :=
  enclosed ("pub " ++ s.name ++ " \x7b") (if isLast then "\x7d" else "\x7d,")
    (s.entries.map (fun e => line e.text) ++ [line (endText s.stop)])

/-- The lines of some structs.  Only the last one closes without a comma. -/
def structLines : List StructDecl → List Line
  | [] => []
  | [s] => s.lines true
  | s :: rest => s.lines false ++ structLines rest

/-- The lines of the module of bitfield types.  Without a type there is no such module. -/
def ModuleDecl.bitsLines (m : ModuleDecl) : List Line :=
  if m.groups.isEmpty then []
  else
    enclosed "pub mod bits \x7b" "\x7d"
      ([line "//! Types that represent individual registers (bitfields).",
        line "use tock_registers::register_bitfields;"] ++ m.groups.flatMap BitfieldGroup.lines)

/-- The lines of the module of structs.  Without a struct there is no such module. -/
def ModuleDecl.regsLines (m : ModuleDecl) : List Line :=
  if m.structs.isEmpty then []
  else
    enclosed "pub mod regs \x7b" "\x7d"
      ([line "//! Types that represent registers.", line "use tock_registers::register_structs;"] ++
        enclosed "register_structs! \x7b" "\x7d" (structLines m.structs))

/-- The lines inside the module of a peripheral. -/
def ModuleDecl.items (m : ModuleDecl) : List Line :=
  innerDoc m.docs ++ m.address.lines "pub " ++ m.interrupts.flatMap (Constant.lines "pub ") ++
    m.bitsLines ++ m.regsLines

end ChipMap.Source
