import ChipMap.Proofs.Map.Located
import ChipMap.Source.Module

/-!
# What the structs of a peripheral promise

The structs of a peripheral stand for its registers in memory: their entries follow each other
without a gap, and **each register member is where the map has a register element of its storage**
(`SoundLayout`).

* `elementBytes`, `Slot.bytes` — the exact number of bytes of a member.
* `Tiles` — entries that follow each other from an offset to another.
* `MemberAt` — where the register members in a member are, through nested structs and arrays.
* `Fits` — no slot ends beyond the greatest word.
* `Lossless` — the other direction: every register element has a member.

### What is load-bearing

All of this is said of the declarations that are printed, and a struct is found by its name, as a
compiler would find it.  Nothing refers to the slots from which the structs were made, so a fault in
placing slots would be a fault of the promise.

Offsets of slots are words, and the sum of an offset and a size may be cut off at the greatest one.
The exact sums are natural numbers, and `Fits` is the condition under which the two are the same.
-/

namespace ChipMap.Source

open Map (Peripheral)

/-! ### Members -/

/-- The number of bytes of the struct of a name. -/
def structBytes (structs : List StructDecl) (name : String) : Nat :=
  ((structs.find? fun d => d.name == name).map (·.stop)).getD 0

/-- The number of bytes of one element of a member. -/
def SlotKind.elementBytes (structs : List StructDecl) : SlotKind → Nat
  | .register _ _ storage _ _ => storage.bytes
  | .block name _ => structBytes structs name

def SlotKind.elements (k : SlotKind) : Nat := k.count.getD 1

/-- The exact number of bytes of a member. -/
def Slot.bytes (structs : List StructDecl) (s : Slot) : Nat :=
  s.kind.elements * s.kind.elementBytes structs

/-- **Where register members are.**  In one element of a member of some kind, a register
member of a storage is at an offset: at the start if the member is a register, and else
where the struct of its name leads to. -/
inductive MemberAt (structs : List StructDecl) : SlotKind → Nat → Storage → Prop
  | register {readable writable : Bool} {storage : Storage} {bitfield : Option String}
    {count : Option Nat} :
    MemberAt structs (.register readable writable storage bitfield count) 0 storage
  | block {d : StructDecl} {s : Slot} {count : Option Nat} {i offset : Nat} {storage : Storage} :
    d ∈ structs → .field s ∈ d.entries → i < s.kind.elements →
      MemberAt structs s.kind offset storage →
      MemberAt structs (.block d.name count)
        (s.offset + i * s.kind.elementBytes structs + offset) storage

/-! ### Entries -/

/-- **Entries that follow each other** from an offset to another.  A member ends where its
last element ends, and a reservation where the next entry begins; a remark takes no byte. -/
inductive Tiles (structs : List StructDecl) : Nat → List Entry → Nat → Prop
  | nil {stop : Nat} : Tiles structs stop [] stop
  | field {s : Slot} {rest : List Entry} {stop : Nat} :
    Tiles structs (s.offset + s.bytes structs) rest stop →
      Tiles structs s.offset (.field s :: rest) stop
  | reserved {offset next number : Nat} {rest : List Entry} {stop : Nat} :
    offset < next → Tiles structs next rest stop →
      Tiles structs offset (.reserved offset number :: rest) stop
  | remark {offset : Nat} {s : Slot} {rest : List Entry} {stop : Nat} :
    Tiles structs offset rest stop → Tiles structs offset (.remark s :: rest) stop

/-! ### Peripherals -/

/-- The structs that are written for a peripheral, its own first. -/
def structsOf (p : Peripheral) : List StructDecl := (ModuleDecl.ofPeripheral p).structs

/-- **No slot ends beyond the greatest word**: the end is the exact one, with all elements
of an array. -/
def Fits (p : Peripheral) : Prop :=
  ∀ b ∈ (shapePeripheral p).blocks, ∀ s ∈ b.slots,
    s.offset + s.bytes (structsOf p) ≤ Word.greatest

instance (p : Peripheral) : Decidable (Fits p) :=
  inferInstanceAs (Decidable (∀ b ∈ (shapePeripheral p).blocks, ∀ s ∈ b.slots,
    s.offset + s.bytes (structsOf p) ≤ Word.greatest))

/-- **A sound layout.** -/
structure SoundLayout (p : Peripheral) : Prop where
  /-- A name stands for one struct. -/
  names : ((structsOf p).map (·.name)).Nodup
  /-- The entries of a struct follow each other from its start to its end. -/
  tiles : ∀ d ∈ structsOf p, Tiles (structsOf p) 0 d.entries d.stop
  /-- A slot counts on the size that the struct of its elements has. -/
  counted : ∀ b ∈ (shapePeripheral p).blocks, ∀ s ∈ b.slots, ∀ name count,
    s.kind = .block name count →
      ∃ d ∈ structsOf p, d.name = name ∧ s.size = s.kind.elements * d.stop
  /-- A register member is at a register element of its storage. -/
  members : ∀ d ∈ (structsOf p).head?, ∀ offset storage,
    MemberAt (structsOf p) (.block d.name none) offset storage →
      ∃ l ∈ p.located, l.offset = offset ∧ Storage.ofSize l.register.size = storage

/-! ### Registers that are not lost -/

/-- A struct without a remark: no slot of it was left out. -/
def Quiet (d : StructDecl) : Prop := ∀ s, .remark s ∉ d.entries

/-- **A struct that members lead to** from the first one. -/
inductive Reached (structs : List StructDecl) : StructDecl → Prop
  | root {d : StructDecl} : d ∈ structs.head? → Reached structs d
  | inner {d e : StructDecl} {s : Slot} {name : String} {count : Option Nat} :
    Reached structs d → .field s ∈ d.entries → s.kind = .block name count → e ∈ structs →
      e.name = name → Reached structs e

/-- **No register is lost.**  Remarks in structs that no member leads to are not counted. -/
structure Lossless (p : Peripheral) : Prop where
  /-- Each register element has a register member of its storage at its offset. -/
  members : ∀ l ∈ p.located, ∃ d ∈ (structsOf p).head?,
    MemberAt (structsOf p) (.block d.name none) l.offset (Storage.ofSize l.register.size)
  /-- Nothing is left out with a remark. -/
  quiet : ∀ d, Reached (structsOf p) d → Quiet d

end ChipMap.Source
