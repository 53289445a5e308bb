/-!
# Words and ranges of bits

Addresses, offsets, register values and masks are words of 64 bits.  Where something lies is a
natural number: a bit in a register, or a byte in the address space.  The two are kept apart because
they do not compute alike.  A word wraps around, as the chip does.  A position is clamped to the
greatest word, so that a block at the end of the address space stays inside it and its end is never
below its start.

A field of a register is a range of bits of the register's value.  Reading the field extracts the
range, and writing it inserts new bits and keeps the others.  Bits at or above position 64 are not
there: they read as zero, and what is written to them is lost.

* `Word`, `Word.count`, `Word.greatest` — 64 bits, the number of words, and the greatest of them as
  a number.
* `clamp`, `clampedAdd`, `clampedMul` — arithmetic of positions that stops at the greatest word.
* `Span` — a half-open range of positions.
* `Bits.shiftUp` — a word moved up, with nothing left once it has moved 64 places.
* `Bits.mask` — the word whose set bits are those of a range.
* `Bits.extract`, `Bits.insert` — the bits of a range, moved down to bit 0, and a word with the bits
  of a range replaced.

### What is load-bearing

The number of words is written out as a numeral (`Word.count`) and not as a power of two.  Bounds
are compared in the natural numbers everywhere, and a numeral is what the arithmetic procedures read
at once.
-/

namespace ChipMap

/-- A word of 64 bits: an address, an offset, a register value or a mask. -/
abbrev Word := BitVec 64

namespace Word

/-- The number of words.  A number below it is the number of a word. -/
def count : Nat := 0x10000000000000000

/-- The greatest word as a number. -/
def greatest : Nat := 0xFFFFFFFFFFFFFFFF

theorem toNat_le_greatest (w : Word) : w.toNat ≤ greatest := by
  have := w.isLt
  simp only [greatest]
  omega

end Word

/-- Whether an integer is a signed one of 64 bits. -/
def isInt64 (n : Int) : Bool := decide (-0x8000000000000000 ≤ n ∧ n < 0x8000000000000000)

/-- Whether an integer is a signed one of 32 bits, as the numbers of interrupts have to be. -/
def isInt32 (n : Int) : Bool := decide (-0x80000000 ≤ n ∧ n < 0x80000000)

/-- A position no greater than the greatest word.  What would lie behind the last address lies at
it. -/
def clamp (n : Nat) : Nat := min n Word.greatest

/-- The sum of two positions, stopped at the greatest word.  The parts may be as great as they like;
only the sum is stopped. -/
def clampedAdd (a b : Nat) : Nat := clamp (a + b)

/-- The product of two lengths, stopped at the greatest word. -/
def clampedMul (a b : Nat) : Nat := clamp (a * b)

theorem clamp_le (n : Nat) : clamp n ≤ Word.greatest := Nat.min_le_right _ _

theorem clamp_of_le {n : Nat} (h : n ≤ Word.greatest) : clamp n = n := Nat.min_eq_left h

theorem clamp_mono {m n : Nat} (h : m ≤ n) : clamp m ≤ clamp n := by
  simp only [clamp]
  omega

/-- A half-open range of positions: of bits in a register, or of bytes in the address space.
Nothing is asked of its ends, so a range may be empty in more than one way, and where ranges are
compared the ends are compared and not the sets. -/
structure Span where
  /-- The first position of the range. -/
  start : Nat
  /-- The position after the last one; a range whose end is not above its start is empty. -/
  stop : Nat
deriving DecidableEq, Repr, Inhabited

namespace Span

/-- How many positions a range has.  A range that ends before it begins has none. -/
def width (s : Span) : Nat := s.stop - s.start

/-- The positions of a range. -/
def Contains (s : Span) (i : Nat) : Prop := s.start ≤ i ∧ i < s.stop

instance (s : Span) (i : Nat) : Decidable (s.Contains i) :=
  inferInstanceAs (Decidable (_ ∧ _))

end Span

end ChipMap

namespace ChipMap.Bits

/-- `value` moved up by `places`.  A word has 64 bits, so a longer move leaves nothing.  The bound
is tested before anything is moved, as a machine word cannot be moved any further. -/
def shiftUp (value : Word) (places : Nat) : Word :=
  if places < 64 then value <<< places else 0

/-- The test of the bound changes nothing: a vector of bits may be moved by any number of
places. -/
theorem shiftUp_eq_shiftLeft (value : Word) (places : Nat) :
    shiftUp value places = value <<< places := by
  unfold shiftUp
  split
  · rfl
  · next h =>
    apply BitVec.eq_of_getLsbD_eq
    intro i hi
    simp only [BitVec.getLsbD_shiftLeft]
    have : i < places := by omega
    simp [this]

/-- The word whose set bits are those of the range that lie below bit 64.  A range of 64 bits or
more has all bits set before it is moved up, and an empty one none. -/
def mask (r : Span) : Word :=
  shiftUp (if r.width < 64 then BitVec.ofNat 64 ((1 <<< r.width) - 1) else BitVec.allOnes 64) r.start

/-- The bits of `value` in the range, moved down to bit 0. -/
def extract (value : Word) (r : Span) : Word :=
  (value &&& mask r) >>> r.start

/-- `value` with the bits of the range replaced by the low bits of `field`.  Bits of `field` that
the range has no room for are dropped, and no bit of `value` outside the range is touched. -/
def insert (value : Word) (r : Span) (field : Word) : Word :=
  (value &&& ~~~(mask r)) ||| (shiftUp field r.start &&& mask r)

end ChipMap.Bits
