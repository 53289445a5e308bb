import ChipMap.Proofs.Word.Bits

/-!
# Reading and replacing any range

A range may be empty, run backwards or reach beyond the last bit of a word.  Whatever its bounds
are, **the bits that it has in a word can be read, replaced and put back** (`range_laws`): what is
put into a range is read from it, the bits outside it stay, and ranges without a common bit do not
disturb each other.

### What is load-bearing

A bit of a range is one of its positions below 64 (`getLsbD_mask`), so every law is checked one bit
at a time, and no law asks how the mask of a range is computed.

What a range can hold is counted by `reach` and not by its width: of the range from 60 to 70 a word
has four bits only.  For a range inside a word the two agree.
-/

namespace ChipMap.Bits

/-- The number of bits that a range has in a word.  It is zero for a range that runs backwards, and
for one that begins beyond the word. -/
def reach (r : Span) : Nat := min r.stop 64 - r.start

/-- A bit counted from the first one of a range is a bit of the range. -/
theorem lt_reach_iff {r : Span} {i : Nat} : i < reach r ↔ r.start + i < r.stop ∧ r.start + i < 64 := by
  unfold reach
  omega

/-- **What was put into a range is read from it**: the low bits, as many as the range has in a
word. -/
theorem toNat_extract_insert (w v : Word) (r : Span) :
    (extract (insert w r v) r).toNat = v.toNat % 2 ^ reach r := by
  refine Nat.eq_of_testBit_eq fun i => ?_
  rw [BitVec.testBit_toNat, Nat.testBit_mod_two_pow, BitVec.testBit_toNat, getLsbD_extract]
  by_cases reached : i < reach r
  · obtain ⟨inside, below⟩ := lt_reach_iff.mp reached
    have contained : r.Contains (r.start + i) := ⟨Nat.le_add_right _ _, inside⟩
    rw [getLsbD_insert w v r below, if_pos contained, Nat.add_sub_cancel_left]
    simp [inside, reached]
  · by_cases inside : r.start + i < r.stop
    · have beyond : 64 ≤ r.start + i := by
        by_contra below
        exact reached (lt_reach_iff.mpr ⟨inside, Nat.lt_of_not_le below⟩)
      rw [BitVec.getLsbD_of_ge _ _ beyond]
      simp [reached]
    · simp [inside, reached]

/-- **A bit outside a range stays** when the range is replaced. -/
theorem getLsbD_insert_of_not_contains (w v : Word) {r : Span} {i : Nat} (outside : ¬r.Contains i) :
    (insert w r v).getLsbD i = w.getLsbD i := by
  by_cases below : i < 64
  · rw [getLsbD_insert w v r below, if_neg outside]
  · rw [BitVec.getLsbD_of_ge _ _ (Nat.le_of_not_lt below),
      BitVec.getLsbD_of_ge _ _ (Nat.le_of_not_lt below)]

/-- **A range that is put back** as it was read leaves the word as it is. -/
theorem insert_extract (w : Word) (r : Span) : insert w r (extract w r) = w := by
  refine BitVec.eq_of_getLsbD_eq fun i below => ?_
  rw [getLsbD_insert w _ r below, getLsbD_extract]
  split
  · next inside =>
    obtain ⟨low, high⟩ := inside
    rw [Nat.add_sub_cancel' low, decide_eq_true high, Bool.true_and]
  · rfl

/-- **Ranges without a common bit** are replaced in either order.  Positions beyond the word do not
count, since no bit of the word is there. -/
theorem insert_comm (w u v : Word) {r other : Span}
    (apart : ∀ i < 64, ¬(r.Contains i ∧ other.Contains i)) :
    insert (insert w r u) other v = insert (insert w other v) r u := by
  refine BitVec.eq_of_getLsbD_eq fun i below => ?_
  simp only [getLsbD_insert _ _ _ below]
  by_cases first : r.Contains i
  · have second : ¬other.Contains i := fun h => apart i below ⟨first, h⟩
    rw [if_neg second, if_pos first, if_pos first]
  · rw [if_neg first, if_neg first]

/-- **The laws of a range**, whatever its bounds are.  The mask has exactly the bits of the range;
what is put into the range is read from it, cut to the bits that the range has; the bits outside
stay; what is read can be put back; and ranges without a common bit are replaced in either order. -/
theorem range_laws (r : Span) (w v : Word) :
    (∀ i, (mask r).getLsbD i = true ↔ (r.start ≤ i ∧ i < r.stop) ∧ i < 64) ∧
    (extract (insert w r v) r).toNat = v.toNat % 2 ^ reach r ∧
    (∀ i, ¬r.Contains i → (insert w r v).getLsbD i = w.getLsbD i) ∧
    insert w r (extract w r) = w ∧
    ∀ other u, (∀ i < 64, ¬(r.Contains i ∧ other.Contains i)) →
      insert (insert w r v) other u = insert (insert w other u) r v := by
  refine ⟨fun i => ?_, toNat_extract_insert w v r, fun i => getLsbD_insert_of_not_contains w v,
    insert_extract w r, fun other u => insert_comm w v u⟩
  rw [getLsbD_mask, Bool.and_eq_true, decide_eq_true_eq, decide_eq_true_eq]

/-- A range that reaches beyond the word holds four bits of what is put into it, beside a range
whose bits are others. -/
theorem range_laws_beyond :
    (∀ i < 64, ¬((⟨60, 70⟩ : Span).Contains i ∧ (⟨4, 8⟩ : Span).Contains i)) ∧
    (extract (insert 0x5A ⟨60, 70⟩ 0x1F3) ⟨60, 70⟩).toNat = 3 ∧
    insert (insert 0x5A ⟨60, 70⟩ 0x1F3) ⟨4, 8⟩ 0xC =
      insert (insert 0x5A ⟨4, 8⟩ 0xC) ⟨60, 70⟩ 0x1F3 := by
  have apart : ∀ i < 64, ¬((⟨60, 70⟩ : Span).Contains i ∧ (⟨4, 8⟩ : Span).Contains i) := by decide
  obtain ⟨-, read, -, -, either⟩ := range_laws ⟨60, 70⟩ 0x5A 0x1F3
  exact ⟨apart, read, either ⟨4, 8⟩ 0xC apart⟩

end ChipMap.Bits
