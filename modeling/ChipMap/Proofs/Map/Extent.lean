import ChipMap.Proofs.Map.Located

/-!
# What lies in the extent of a node

The extent of a node is the smallest range that holds its registers and clusters
(`hullOf_within_iff`), and an array reaches from its first element to the end of its last one.
**Every register element of a node lies in its extent**, in whatever element of whatever cluster it
is (`elementSpans_within`).

### What is load-bearing

An extent is found by multiplying strides, and only the last element of an array is looked at; the
elements are listed one by one.  Both stop at the greatest word.  A range in another one stays there
when both are seen from further out, even where one of them or both stop (`Span.Within.shift`), so
the induction over clusters can go on at any base.

The smallest range of no ranges is empty and begins at zero.  It lies in no range that begins later,
hence the hypothesis of `hullOf_within_iff` that there are some.
-/

namespace ChipMap

/-- **One range lies in another.**  An empty range does so by its ends, too. -/
def Span.Within (a b : Span) : Prop := b.start ≤ a.start ∧ a.stop ≤ b.stop

instance (a b : Span) : Decidable (a.Within b) := inferInstanceAs (Decidable (_ ∧ _))

/-- A range of a node that starts at `base`, as far as words go. -/
def Span.shift (base : Nat) (s : Span) : Span := ⟨clampedAdd base s.start, clampedAdd base s.stop⟩

namespace Span.Within

variable {a a' b b' c : Span}

theorem refl (a : Span) : a.Within a := ⟨Nat.le_refl _, Nat.le_refl _⟩

theorem trans (h : a.Within b) (h' : b.Within c) : a.Within c :=
  ⟨Nat.le_trans h'.1 h.1, Nat.le_trans h.2 h'.2⟩

theorem antisymm (h : a.Within b) (h' : b.Within a) : a = b := by
  cases a
  cases b
  exact congrArg₂ Span.mk (Nat.le_antisymm h'.1 h.1) (Nat.le_antisymm h.2 h'.2)

/-- What lies in a range lies there from further out. -/
theorem shift (h : a.Within b) (base : Nat) : (a.shift base).Within (b.shift base) :=
  ⟨clamp_mono (Nat.add_le_add_left h.1 base), clamp_mono (Nat.add_le_add_left h.2 base)⟩

theorem meets (h : a.Within a') (h' : b.Within b') (meets : a.Meets b) : a'.Meets b' := by
  obtain ⟨i, ha, hb⟩ := meets
  exact ⟨i, ⟨Nat.le_trans h.1 ha.1, Nat.lt_of_lt_of_le ha.2 h.2⟩,
    Nat.le_trans h'.1 hb.1, Nat.lt_of_lt_of_le hb.2 h'.2⟩

end Span.Within

end ChipMap

namespace ChipMap.Map

/-! ### The smallest range -/

theorem hull_within_iff {a b t : Span} : (hull a b).Within t ↔ a.Within t ∧ b.Within t := by
  unfold hull Span.Within
  dsimp only
  omega

theorem foldl_hull_within_iff {rest : List Span} {t : Span} : ∀ {first : Span},
    (rest.foldl hull first).Within t ↔ first.Within t ∧ ∀ s ∈ rest, s.Within t := by
  induction rest with
  | nil => simp
  | cons s rest ih =>
      intro first
      rw [List.foldl_cons, ih, hull_within_iff, List.forall_mem_cons, and_assoc]

/-- **The hull of some ranges is the smallest range that holds them all.**  Taken for all ranges,
this determines the hull. -/
theorem hullOf_within_iff {spans : List Span} {t : Span} (some_ : spans ≠ []) :
    (hullOf spans).Within t ↔ ∀ s ∈ spans, s.Within t := by
  cases spans with
  | nil => exact absurd rfl some_
  | cons s rest => rw [hullOf, foldl_hull_within_iff, List.forall_mem_cons]

theorem within_hullOf {spans : List Span} {s : Span} (h : s ∈ spans) : s.Within (hullOf spans) :=
  (hullOf_within_iff (List.ne_nil_of_mem h)).mp (.refl _) s h

/-! ### Arrays -/

section Arrays

variable {offset : Word} {vector : Option Vector}

theorem elementOffset_mono {start i j increment : Nat} (h : i ≤ j) :
    elementOffset start i increment ≤ elementOffset start j increment := by
  have distance := Nat.mul_le_mul_right increment h
  exact clamp_mono (Nat.add_le_add_left (clamp_mono distance) start)

theorem le_elementOffset (i increment : Nat) : offset.toNat ≤ elementOffset offset.toNat i increment :=
  Nat.le_min.mpr ⟨Nat.le_add_right _ _, offset.toNat_le_greatest⟩

/-- **Each element of an array lies in the array**, the last one included. -/
theorem element_within (size : Nat) {e : String × Nat} (he : e ∈ elements offset vector) :
    Span.Within ⟨e.2, clampedAdd e.2 size⟩ (arraySpan offset size vector) := by
  cases vector with
  | none =>
      obtain rfl := List.mem_singleton.mp he
      exact .refl _
  | some v =>
      obtain ⟨i, hi, rfl⟩ := List.mem_map.mp he
      have last : i ≤ v.count.toNat - 1 := Nat.le_sub_one_of_lt (List.mem_range.mp hi)
      exact ⟨le_elementOffset _ _, clamp_mono (Nat.add_le_add_right (elementOffset_mono last) size)⟩

theorem shift_element (base position size : Nat) :
    Span.shift base ⟨position, clampedAdd position size⟩ =
      ⟨clampedAdd base position, clampedAdd (clampedAdd base position) size⟩ := by
  simp only [Span.shift, clampedAdd, clamp_clamp_add, clamp_add_clamp, Nat.add_assoc]

/-- **What lies in an element of an array lies in the array**, as it is seen from `base`. -/
theorem shift_within_array (inner : Span) {e : String × Nat} (he : e ∈ elements offset vector)
    (base : Nat) : (inner.shift (clampedAdd base e.2)).Within
      ((arraySpan offset inner.stop vector).shift base) := by
  have outside := (element_within inner.stop he).shift base
  rw [shift_element] at outside
  refine ⟨Nat.le_trans outside.1 ?_, outside.2⟩
  -- The element begins no later than what lies in it.
  simp only [Span.shift, clampedAdd, clamp_clamp_add]
  exact clamp_mono (Nat.le_add_right _ _)

end Arrays

/-! ### Register elements -/

theorem register_within {base : Nat} {lead : String} {r : Register} {s : NamedSpan}
    (hs : s ∈ r.elementSpans base lead) : s.span.Within (r.span.shift base) := by
  obtain ⟨e, he, rfl⟩ := List.mem_map.mp hs
  have inside := (element_within r.byteSize he).shift base
  rwa [shift_element] at inside

/-- **Every register element of a node lies in its extent**, at any base, by induction over the
clusters.  The induction goes from the clusters inside to those around them. -/
theorem elementSpans_within (clusters : List Cluster) : ∀ {registers : List Register} {base : Nat}
    {lead : String} {s : NamedSpan}, s ∈ elementSpans base lead registers clusters →
      s.span.Within ((extent registers clusters).shift base) := by
  induction clusters using clusters_step with
  | step clusters ih =>
      intro registers base lead s hs
      rcases List.mem_append.mp hs with hs | hs
      · obtain ⟨r, hr, hs⟩ := List.mem_flatMap.mp hs
        refine (register_within hs).trans (Span.Within.shift (within_hullOf ?_) base)
        exact List.mem_append_left _ (List.mem_map_of_mem hr)
      · obtain ⟨c, hc, hs⟩ := List.mem_flatMap.mp hs
        rw [Cluster.elementSpans_eq] at hs
        obtain ⟨e, he, hs⟩ := List.mem_flatMap.mp hs
        have inside := shift_within_array (extent c.registers c.clusters) he base
        rw [← Cluster.span_eq] at inside
        refine (ih c hc hs).trans (inside.trans (Span.Within.shift (within_hullOf ?_) base))
        exact List.mem_append_right _ (List.mem_map_of_mem hc)

/-! ### Peripherals -/

theorem extent_start_le (registers : List Register) (clusters : List Cluster) :
    (extent registers clusters).start ≤ Word.greatest := by
  have starts : ∀ s ∈ registers.map Register.span ++ clusters.map Cluster.span,
      s.start ≤ Word.greatest := by
    intro s hs
    rcases List.mem_append.mp hs with hs | hs
    · obtain ⟨r, -, rfl⟩ := List.mem_map.mp hs
      exact r.addressOffset.toNat_le_greatest
    · obtain ⟨c, -, rfl⟩ := List.mem_map.mp hs
      rw [Cluster.span_eq]
      exact c.addressOffset.toNat_le_greatest
  unfold extent
  cases held : registers.map Register.span ++ clusters.map Cluster.span with
  | nil => exact Nat.zero_le _
  | cons s rest =>
      have first : s ∈ s :: rest := List.mem_cons_self
      exact Nat.le_trans (within_hullOf first).1 (starts s (held ▸ first))

/-- **Every register element of a peripheral lies in its address range**, when this is the extent of
the registers and clusters. -/
theorem Peripheral.elementSpans_within {p : Peripheral}
    (range : p.addressRange = extent p.registers p.clusters) {s : NamedSpan}
    (hs : s ∈ p.elementSpans) : s.span.Within p.addressRange := by
  have inside := Map.elementSpans_within p.clusters hs
  rw [← range] at inside
  refine inside.trans ⟨?_, ?_⟩
  · have small := extent_start_le p.registers p.clusters
    rw [← range] at small
    rw [Span.shift, clampedAdd, Nat.zero_add, clamp_of_le small]
  · rw [Span.shift, clampedAdd, clampedAdd, Nat.zero_add, Nat.zero_add]
    exact Nat.min_le_left _ _

/-- The same of the addresses: an element lies in the addresses of its peripheral, also where these
stop at the greatest word. -/
theorem Peripheral.addresses_within {p : Peripheral}
    (range : p.addressRange = extent p.registers p.clusters) {s : NamedSpan}
    (hs : s ∈ p.elementSpans) :
    (s.span.shift p.baseAddress.toNat).Within p.span.span :=
  (Peripheral.elementSpans_within range hs).shift _

end ChipMap.Map
