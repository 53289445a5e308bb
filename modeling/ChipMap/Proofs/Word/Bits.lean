import ChipMap.Word.Bits
import Mathlib.Data.Nat.Bitwise

/-!
# The bits of a range

A range of bits in a word is read, replaced and masked.  `getLsbD_mask` says which bits a mask has;
what is said of masked words elsewhere is said bit by bit from there.  A range that is replaced
**holds what was put into it and leaves the others alone** (`extract_insert`,
`extract_insert_of_disjoint`).

### What is load-bearing

A mask is computed with shifts, and the case of a range as wide as a word has a branch of its own.
Only `getLsbD_mask` looks at that computation.  Everything else takes the bits of the mask from it,
and asks of a range only which numbers it contains.

Registers of a target have up to 64 bits, so what is read back from a register has been masked once
more.  The laws of the last section have this mask in them already, and the hypothesis that the
range is inside the register.
-/

namespace ChipMap.Bits

/-- **The bits of a mask are those of its range**, as far as a word reaches.  The range may be
empty, and it may reach beyond the word. -/
theorem getLsbD_mask (r : Span) (i : Nat) :
    (mask r).getLsbD i = (decide (r.start ≤ i ∧ i < r.stop) && decide (i < 64)) := by
  -- The mask before it is shifted: the lowest bits, as many as the range is wide.
  have low (j : Nat) : (if r.width < 64 then BitVec.ofNat 64 ((1 <<< r.width) - 1)
      else BitVec.allOnes 64).getLsbD j = (decide (j < r.width) && decide (j < 64)) := by
    split
    · next short =>
      rw [BitVec.getLsbD_ofNat, Nat.one_shiftLeft, Nat.testBit_two_pow_sub_one, Bool.and_comm]
    · next wide =>
      rw [BitVec.getLsbD_allOnes]
      have : j < 64 → j < r.width := by omega
      by_cases hj : j < 64
      · simp [hj, this hj]
      · simp [hj]
  rw [mask, shiftUp_eq_shiftLeft, BitVec.getLsbD_shiftLeft, low]
  unfold Span.width
  by_cases hi : i < 64
  · by_cases hs : r.start ≤ i
    · have : ¬i < r.start := by omega
      have : (i - r.start < r.stop - r.start) ↔ i < r.stop := by omega
      have : i - r.start < 64 := by omega
      simp [*]
    · have : i < r.start := by omega
      simp [*]
  · simp [hi]

/-- A word without a bit above the lowest `n` is below `2 ^ n`.  The converse is
`getLsbD_of_toNat_lt`. -/
theorem toNat_lt_two_pow {w : Word} {n : Nat} (h : ∀ i, n ≤ i → w.getLsbD i = false) :
    w.toNat < 2 ^ n := by
  refine Nat.lt_pow_two_of_testBit _ fun i hi => ?_
  rw [BitVec.testBit_toNat]
  exact h i hi

theorem toNat_and_mask_lt (w : Word) (n : Nat) : (w &&& mask ⟨0, n⟩).toNat < 2 ^ n := by
  refine toNat_lt_two_pow fun i hi => ?_
  have : ¬i < n := by omega
  rw [BitVec.getLsbD_and, getLsbD_mask]
  simp [this]

/-- **A word with no bit outside the mask** of its lowest `n` bits is below `2 ^ n`. -/
theorem toNat_lt_of_and_not_mask {w : Word} {n : Nat} (h : w &&& ~~~mask ⟨0, n⟩ = 0) :
    w.toNat < 2 ^ n := by
  refine toNat_lt_two_pow fun i hi => ?_
  have out : ¬i < n := by omega
  have bit := congrArg (fun v : Word => v.getLsbD i) h
  simp only [BitVec.getLsbD_and, BitVec.getLsbD_not, getLsbD_mask] at bit
  by_cases hi : i < 64
  · simpa [out, hi] using bit
  · exact BitVec.getLsbD_of_ge w i (by omega)

theorem getLsbD_of_toNat_lt {w : Word} {n i : Nat} (h : w.toNat < 2 ^ n) (hi : n ≤ i) :
    w.getLsbD i = false := by
  rw [← BitVec.testBit_toNat]
  exact Nat.testBit_lt_two_pow (Nat.lt_of_lt_of_le h (Nat.pow_le_pow_right (by decide) hi))

/-- **A word below `2 ^ n` is kept by the mask** of its lowest `n` bits. -/
theorem and_mask_of_toNat_lt {w : Word} {n : Nat} (h : w.toNat < 2 ^ n) : w &&& mask ⟨0, n⟩ = w := by
  refine BitVec.eq_of_getLsbD_eq fun i hi => ?_
  rw [BitVec.getLsbD_and, getLsbD_mask]
  by_cases low : i < n
  · simp [low, hi]
  · rw [getLsbD_of_toNat_lt h (Nat.not_lt.mp low)]
    rfl

theorem and_not_mask_of_toNat_lt {w : Word} {n : Nat} (h : w.toNat < 2 ^ n) :
    w &&& ~~~mask ⟨0, n⟩ = 0 := by
  rw [← and_mask_of_toNat_lt h, BitVec.and_assoc, BitVec.and_not_self]
  exact BitVec.and_zero

/-! ### Reading and replacing a range -/

/-- The bits of a range, counted from its first one. -/
theorem getLsbD_extract (w : Word) (r : Span) (i : Nat) :
    (extract w r).getLsbD i = (decide (r.start + i < r.stop) && w.getLsbD (r.start + i)) := by
  rw [extract, BitVec.getLsbD_ushiftRight, BitVec.getLsbD_and, getLsbD_mask]
  by_cases inside : r.start + i < 64
  · simp [inside, Bool.and_comm]
  · rw [BitVec.getLsbD_of_ge w _ (by omega)]
    simp

/-- The bits of a word in which a range is replaced: those of the new value inside the range,
counted from its first bit, and those of the word elsewhere. -/
theorem getLsbD_insert (w v : Word) (r : Span) {i : Nat} (hi : i < 64) :
    (insert w r v).getLsbD i = if r.Contains i then v.getLsbD (i - r.start) else w.getLsbD i := by
  rw [insert, shiftUp_eq_shiftLeft]
  simp only [BitVec.getLsbD_or, BitVec.getLsbD_and, BitVec.getLsbD_not, BitVec.getLsbD_shiftLeft,
    getLsbD_mask, hi, decide_true, Bool.true_and, Bool.and_true]
  split
  · next inside =>
    obtain ⟨low, high⟩ := inside
    have : ¬i < r.start := by omega
    simp [low, high, this]
  · next outside =>
    have : ¬(r.start ≤ i ∧ i < r.stop) := outside
    simp [this]

/-- The bits of a word under the mask of its lowest `n` bits. -/
theorem getLsbD_and_mask (w : Word) {n i : Nat} (hi : i < 64) :
    (w &&& mask ⟨0, n⟩).getLsbD i = (w.getLsbD i && decide (i < n)) := by
  rw [BitVec.getLsbD_and, getLsbD_mask]
  simp only [Nat.zero_le, true_and, hi, decide_true, Bool.and_true]

/-- **What was put into a range is read from it**, as far as the range reaches.  The word may have
been masked in between, as long as the mask leaves the range whole. -/
theorem extract_insert {w v : Word} {r : Span} {n : Nat} (inside : r.stop ≤ n) (word : n ≤ 64) :
    extract (insert w r v &&& mask ⟨0, n⟩) r = BitVec.ofNat 64 (v.toNat % 2 ^ r.width) := by
  refine BitVec.eq_of_getLsbD_eq fun i hi => ?_
  rw [getLsbD_extract, BitVec.getLsbD_ofNat, Nat.testBit_mod_two_pow, BitVec.testBit_toNat]
  have same : i < r.width ↔ r.start + i < r.stop := by
    unfold Span.width
    omega
  by_cases reached : r.start + i < r.stop
  · have below : r.start + i < 64 := by omega
    have contained : r.Contains (r.start + i) := ⟨Nat.le_add_right _ _, reached⟩
    have low : r.start + i < n := by omega
    rw [getLsbD_and_mask _ below, getLsbD_insert _ _ _ below, if_pos contained]
    simp [reached, same.mpr reached, low, hi]
  · have past : ¬i < r.width := fun h => reached (same.mp h)
    simp [reached, past]

/-- **What stands in another range stays** when a range is replaced.  This is why a write to a field
keeps the other fields of its register. -/
theorem extract_insert_of_disjoint {w v : Word} {r other : Span} {n : Nat}
    (inside : other.stop ≤ n) (word : n ≤ 64)
    (apart : ∀ i, ¬(r.Contains i ∧ other.Contains i)) :
    extract (insert w r v &&& mask ⟨0, n⟩) other = extract w other := by
  refine BitVec.eq_of_getLsbD_eq fun i _ => ?_
  rw [getLsbD_extract, getLsbD_extract]
  by_cases reached : other.start + i < other.stop
  · have below : other.start + i < 64 := by omega
    have contained : other.Contains (other.start + i) := ⟨Nat.le_add_right _ _, reached⟩
    have out : ¬r.Contains (other.start + i) := fun h => apart _ ⟨h, contained⟩
    have low : other.start + i < n := by omega
    rw [getLsbD_and_mask _ below, getLsbD_insert _ _ _ below, if_neg out]
    simp [low]
  · simp [reached]

/-- **Two ranges that share no bit are replaced in either order.**  The mask is applied after each
step, as it is when the register is written twice. -/
theorem insert_insert_of_disjoint {w u v : Word} {r other : Span} {n : Nat}
    (apart : ∀ i, ¬(r.Contains i ∧ other.Contains i)) :
    insert (insert w r u &&& mask ⟨0, n⟩) other v &&& mask ⟨0, n⟩ =
      insert (insert w other v &&& mask ⟨0, n⟩) r u &&& mask ⟨0, n⟩ := by
  refine BitVec.eq_of_getLsbD_eq fun i hi => ?_
  simp only [getLsbD_and_mask _ hi, getLsbD_insert _ _ _ hi]
  by_cases first : r.Contains i
  · have second : ¬other.Contains i := fun h => apart i ⟨first, h⟩
    simp [first, second]
  · by_cases second : other.Contains i
    · simp [first, second]
    · simp [first, second]

end ChipMap.Bits
