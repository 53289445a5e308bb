import ChipMap.Target.Item
import ChipMap.Target.Memory
import ChipMap.Word.Bits

/-!
# Reading and writing items

A register is read and written as a whole.  A field is a range of bits of its register: to write it,
the other bits of the register are read first, or taken from the value after a reset where the
register cannot be read.

* `AccessFault` — why an item cannot be read or written, with `AccessFault.message`.
* `readItem`, `writeItem` — the value of an item.
* `Action`, `perform` — what can be done with the item of a path.

### What is load-bearing

Each access asks the access of the item it is about: that of the field for a field, and that of the
register for a register.  So a field that may be read is read through its register even where the
register itself may not, while a write to a field does not read a register which may not be read
(`currentWord`).

What is refused by an access is refused before the memory is asked, and leaves no trace on the bus.
-/

namespace ChipMap.Target

open Map (Device Register Field)
open Description (ItemKind)

/-- Why an item cannot be read or written. -/
inductive AccessFault where
  /-- The item has no value. -/
  | notAccessible (kind : ItemKind)
  /-- The access of the item does not allow it. -/
  | denied (kind : ItemKind) (name operation : String)
  /-- The memory failed at an address. -/
  | memory (address : Word)
deriving DecidableEq, Repr, Inhabited

/-- The wording of a fault. -/
def AccessFault.message : AccessFault → String
  | notAccessible kind => "a " ++ kind.label ++ " cannot be read or written"
  | denied kind name operation => kind.label ++ " '" ++ name ++ "' is not " ++ operation
  | memory address => "memory access failed: " ++ toString address.toNat

def registerBits (r : Register) : Span := ⟨0, r.size⟩

/-- Reads the word of a register.  The width of the transfer is the size of the register. -/
def readWord (b : Bus) (r : Register) (address : Word) : Except AccessFault Word × Bus :=
  match b.read address r.size with
  | (some value, after) => (.ok value, after)
  | (none, after) => (.error (.memory address), after)

/-- Writes the bits of a register.  Bits above its size are cleared in the word that goes to the
memory. -/
def writeWord (b : Bus) (r : Register) (address value : Word) : Except AccessFault Unit × Bus :=
  match b.write address (value &&& Bits.mask (registerBits r)) r.size with
  | (true, after) => (.ok (), after)
  | (false, after) => (.error (.memory address), after)

/-- The word that a field is written into: what the register holds, or its value after a reset where
it cannot be read.  The latter needs no transfer. -/
def currentWord (b : Bus) (r : Register) (address : Word) : Except AccessFault Word × Bus :=
  if r.access.isReadable then readWord b r address else (.ok r.resetValue, b)

/-- The value of an item, and the bus after it was read.  A field has its value at the lowest
bits. -/
def readItem (b : Bus) : Item → Except AccessFault Word × Bus
  | .register r a =>
    if r.access.isReadable then
      let (outcome, after) := readWord b r a
      (outcome.map fun value => value &&& Bits.mask (registerBits r), after)
    else (.error (.denied .register r.name "readable"), b)
  | .field r f a =>
    if f.access.isReadable then
      let (outcome, after) := readWord b r a
      (outcome.map fun value => Bits.extract value f.bits, after)
    else (.error (.denied .field f.name "readable"), b)
  | item => (.error (.notAccessible item.kind), b)

/-- Whether an item could be given a value, and the bus after it.  Bits of the value that the item
does not have are dropped. -/
def writeItem (b : Bus) (item : Item) (value : Word) : Except AccessFault Unit × Bus :=
  match item with
  | .register r a =>
    if r.access.isWritable then writeWord b r a value
    else (.error (.denied .register r.name "writable"), b)
  | .field r f a =>
    if f.access.isWritable then
      match currentWord b r a with
      | (.error fault, after) => (.error fault, after)
      | (.ok current, after) => writeWord after r a (Bits.insert current f.bits value)
    else (.error (.denied .field f.name "writable"), b)
  | item => (.error (.notAccessible item.kind), b)

/-- What can be done with the item of a path. -/
inductive Action where
  | find
  | read
  | write (value : Word)
deriving DecidableEq, Repr, Inhabited

/-- What was done with an item, for a reader of the answer. -/
inductive Outcome where
  | found (item : Item)
  | value (w : Word)
  | written
deriving Repr, Inhabited

/-- Why an action failed. -/
inductive ActionFault where
  | lookup (fault : LookupFault)
  | access (fault : AccessFault)
deriving DecidableEq, Repr, Inhabited

/-- Does something with the item of a path, and gives the bus after it.  A path that leads nowhere
leaves the bus as it is. -/
def perform (d : Device) (b : Bus) (path : String) (action : Action) :
    Except ActionFault Outcome × Bus :=
  match find d path with
  | .error fault => (.error (.lookup fault), b)
  | .ok item =>
    match action with
    | .find => (.ok (.found item), b)
    | .read =>
      let (outcome, after) := readItem b item
      ((outcome.map Outcome.value).mapError .access, after)
    | .write value =>
      let (outcome, after) := writeItem b item value
      ((outcome.map fun _ => Outcome.written).mapError .access, after)

end ChipMap.Target
