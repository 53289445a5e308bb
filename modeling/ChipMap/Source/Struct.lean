import ChipMap.Source.Slot
import ChipMap.Numeral.Grouped

/-!
# Structs of register blocks

A struct gives its slots their places.  Slots are placed in the order of their offsets: scalar
registers of one offset and one storage are merged into one member, the bytes before a member that
no other member has are reserved, and a slot that begins before the end of the member placed last is
left out with a remark.

* `Slot.absorb?`, `mergeSlots` — scalar registers that share a place.
* `Entry` — a line of a struct.
* `place` — the entries of slots that are in order.
* `StructDecl`, `Block.declaration` — a struct with its entries.

### What is load-bearing

A slot is compared with the last slot that was kept and with no earlier one.  So two registers that
could share a place do not when a third one of the same offset, but of another storage, has a name
between theirs.

The entries of a struct leave no gap: each member and each reservation begins where the one before
it ends, and the last reservation reaches the size that the enclosing struct counts on.
-/

namespace ChipMap.Source

/-- A slot with a scalar register of the same place and storage folded in: it may be read if one of
the two may be read, and written if one of the two may be written.  Its name and its bitfield type
stay. -/
def Slot.absorb? (s other : Slot) : Option Slot :=
  match s.kind, other.kind with
  | .register r w storage bitfield none, .register r' w' storage' _ none =>
    if s.offset = other.offset ∧ storage = storage' then
      some { s with kind := .register (r || r') (w || w') storage bitfield none }
    else none
  | _, _ => none

/-- Slots in order behind the slot `last`, with each folded into the one before it if they share a
place.  The recursion carries the slot that was kept last. -/
def mergeBehind (last : Slot) : List Slot → List Slot
  | [] => [last]
  | s :: rest =>
    match last.absorb? s with
    | some merged => mergeBehind merged rest
    | none => last :: mergeBehind s rest

/-- Slots in order, with neighbours merged that share a place. -/
def mergeSlots : List Slot → List Slot
  | [] => []
  | s :: rest => mergeBehind s rest

/-- Slots in the order of their offsets, and of their names where these agree.  No two slots of a
struct have one name, so this settles the order of all of them. -/
def sortSlots (slots : List Slot) : List Slot :=
  Name.sortOn (Name.lexLe Name.textLe) (fun s => (s.offset, s.name)) slots

/-- A line of a struct.  A remark takes no bytes. -/
inductive Entry where
  /-- A member at the place it asks for. -/
  | field (slot : Slot)
  /-- Bytes from an offset on that no member has, with the number of the reservation. -/
  | reserved (offset number : Nat)
  /-- A slot that has no place of its own. -/
  | remark (slot : Slot)
deriving DecidableEq, Repr, Inhabited

/-- The entries of slots in order, when the places below `next` are taken and `number` reservations
were made; with the end of the last member and the number of reservations behind it.  The recursion
is on the slots that are left. -/
def place (next number : Nat) : List Slot → List Entry × Nat × Nat
  | [] => ([], next, number)
  | s :: rest =>
    if s.offset < next then
      -- The bytes are taken by an earlier member, so the slot is only remarked on.
      let (entries, after) := place next number rest
      (.remark s :: entries, after)
    else if next < s.offset then
      -- The bytes before the slot belong to no member and are reserved.
      let (entries, after) := place s.stop (number + 1) rest
      (.reserved next number :: .field s :: entries, after)
    else
      let (entries, after) := place s.stop number rest
      (.field s :: entries, after)

/-- A struct with its entries in order.  It ends where its last entry does. -/
structure StructDecl where
  name : String
  entries : List Entry
  /-- The number of bytes of the struct. -/
  stop : Nat
deriving DecidableEq, Repr, Inhabited

/-- The struct of a block.  Bytes behind the last member that the enclosing struct counts on are
reserved, so that the elements of an array of structs keep their distance. -/
def Block.declaration (b : Block) : StructDecl :=
  let (entries, next, number) := place 0 0 (mergeSlots (sortSlots b.slots))
  if next < b.size then ⟨b.name, entries ++ [.reserved next number], b.size⟩
  else ⟨b.name, entries, next⟩

/-- The type of a register that may be read or written.  A register that may be neither counts as
one that may be written. -/
def accessType (readable writable : Bool) : String :=
  if readable && writable then "ReadWrite" else if readable then "ReadOnly" else "WriteOnly"

/-- The path of the library types of registers. -/
def registerPath : String := "tock_registers::registers::"

/-- The type of one element of a member. -/
def SlotKind.elementType : SlotKind → String
  | .register readable writable storage bitfield _ =>
    let fields :=
      match bitfield with
      | some name => ", super::bits::" ++ name ++ "::Register"
      | none => ""
    registerPath ++ accessType readable writable ++ "<" ++ storage.typeName ++ fields ++ ">"
  | .block structName _ => structName

/-- The number of elements of a member that is an array. -/
def SlotKind.count : SlotKind → Option Nat
  | .register _ _ _ _ count => count
  | .block _ count => count

/-- The type of a member. -/
def SlotKind.typeName (k : SlotKind) : String :=
  match k.count with
  | some count => "[" ++ k.elementType ++ "; " ++ toString count ++ "]"
  | none => k.elementType

/-- The text of an entry.  A remark is a comment, and names the slot with the offset it asked
for. -/
def Entry.text : Entry → String
  | field s =>
    "(" ++ Numeral.hexPlain s.offset ++ " => pub " ++ s.name ++ ": " ++ s.kind.typeName ++ "),"
  | reserved offset number =>
    "(" ++ Numeral.hexPlain offset ++ " => _reserved" ++ toString number ++ "),"
  | remark s => "// " ++ s.name ++ " at " ++ Numeral.hexPlain s.offset ++
      " overlaps the previous member"

/-- The text that ends the entries of a struct. -/
def endText (stop : Nat) : String :=
  "(" ++ Numeral.hexPlain stop ++ " => @END),"

end ChipMap.Source
