import ChipMap.Word.Bits

/-!
# The memory of a target

A memory holds a word under each address.  Some addresses are at fault: every access to them fails
and changes nothing.  A bus is a memory with a record of the accesses that were tried.

* `Memory` — the words of a target, with `Memory.get` and `Memory.set`.
* `Transfer` — one access to the memory.
* `Bus` — a memory with its record, with `Bus.read` and `Bus.write`.

### What is load-bearing

Cells do not overlap: a word under one address says nothing about the word under the next, whatever
widths they were accessed with.  The width of an access is only recorded.

An access is recorded also when it fails.  The record tells accesses that were tried from those that
were refused before the memory was asked.
-/

namespace ChipMap.Target

/-- The words of a target.  An address that no cell has holds zero.  Writing under one address
changes the word under no other. -/
structure Memory where
  /-- The written cells in the order of their addresses, one for each address. -/
  cells : List (Word × Word)
  /-- The addresses whose accesses fail. -/
  faults : List Word
deriving DecidableEq, Repr, Inhabited

/-- Cells in the order of their addresses with a word put under an address.  A cell that was there
is replaced. -/
def setCell (address value : Word) : List (Word × Word) → List (Word × Word)
  | [] => [(address, value)]
  | cell :: rest =>
    if address.toNat < cell.1.toNat then (address, value) :: cell :: rest
    else if address = cell.1 then (address, value) :: rest
    else cell :: setCell address value rest

namespace Memory

/-- The word under an address.  An address that was never written holds zero. -/
def get (m : Memory) (address : Word) : Word := (m.cells.lookup address).getD 0

/-- The memory with a word put under an address. -/
def set (m : Memory) (address value : Word) : Memory :=
  { m with cells := setCell address value m.cells }

/-- The memory that holds some words; of two under one address the later one counts. -/
def ofCells (cells : List (Word × Word)) (faults : List Word) : Memory :=
  cells.foldl (fun m cell => m.set cell.1 cell.2) ⟨[], faults⟩

end Memory

/-- An access that was tried, with its width in bits. -/
inductive Transfer where
  | read (address : Word) (width : Nat)
  | write (address value : Word) (width : Nat)
deriving DecidableEq, Repr, Inhabited

/-- A memory with the accesses that were tried, in order. -/
structure Bus where
  memory : Memory
  trace : List Transfer
deriving DecidableEq, Repr, Inhabited

namespace Bus

/-- The word under an address, if the access succeeds, and the bus after it. -/
def read (b : Bus) (address : Word) (width : Nat) : Option Word × Bus :=
  let after := { b with trace := b.trace ++ [.read address width] }
  if b.memory.faults.contains address then (none, after) else (some (b.memory.get address), after)

/-- Whether a word could be put under an address, and the bus after it. -/
def write (b : Bus) (address value : Word) (width : Nat) : Bool × Bus :=
  let trace := b.trace ++ [.write address value width]
  if b.memory.faults.contains address then (false, { b with trace })
  else (true, ⟨b.memory.set address value, trace⟩)

end Bus

/-! ### Cells -/

theorem lookup_setCell_self (address value : Word) (cells : List (Word × Word)) :
    (setCell address value cells).lookup address = some value := by
  induction cells with
  | nil => simp [setCell]
  | cons cell rest ih =>
    obtain ⟨place, old⟩ := cell
    unfold setCell
    split
    · simp
    · split
      · simp
      · next h =>
        rw [List.lookup_cons, beq_eq_false_iff_ne.2 h]
        exact ih

theorem Memory.get_set_self (m : Memory) (address value : Word) :
    (m.set address value).get address = value := by
  simp [Memory.get, Memory.set, lookup_setCell_self]

end ChipMap.Target
