import ChipMap.Proofs.Map.Overlap
import ChipMap.Proofs.Name.Order

/-!
# Where the register elements of a map are

Every element of a register, for every element of the clusters around it, has an exact offset
(`located`).  The search for overlaps works with positions that stop at the greatest word; **as long
as nothing ends beyond the greatest word, what it finds is exact** (`disjoint_of_quiet`).

### What is load-bearing

Positions are clamped at every step, and a clamped sum of clamped sums is the clamp of the exact sum
(`clamp_clamp_add`).  So the two lists of elements agree one by one, in the same order, at any base.

Exact offsets are natural numbers without a bound, and they do not mention a base: a cluster moves
the elements inside it (`Located.shift`).  The induction over clusters goes from the inside to the
outside, with the base as a variable (`clusters_step`).
-/

namespace ChipMap.Map

/-! ### Exact offsets -/

/-- The offsets of the elements of a node, in order. -/
def offsets (offset : Word) : Option Vector → List Nat
  | none => [offset.toNat]
  | some v => (List.range v.count.toNat).map fun i => offset.toNat + i * v.stride.toNat

/-- **A register element**: an element of a register at an offset.  Its bytes follow from the
two. -/
structure Located where
  /-- The exact distance from the start of the node in bytes. -/
  offset : Nat
  /-- The register that it is an element of. -/
  register : Register

namespace Located

/-- The element as a node sees it in which the inner one begins at `base`. -/
def shift (base : Nat) (l : Located) : Located := ⟨base + l.offset, l.register⟩

def span (l : Located) : Span := ⟨l.offset, l.offset + l.register.byteSize⟩

end Located

/-- The elements of a register. -/
def Register.located (r : Register) : List Located :=
  (offsets r.addressOffset r.vector).map fun offset => ⟨offset, r⟩

mutual

/-- The register elements in a cluster, for every element of the cluster. -/
def Cluster.located : Cluster → List Located
  | ⟨_, _, offset, vector, registers, clusters⟩ =>
    (offsets offset vector).flatMap fun base =>
      (registers.flatMap Register.located ++ clustersLocated clusters).map (.shift base)

def clustersLocated : List Cluster → List Located
  | [] => []
  | c :: rest => c.located ++ clustersLocated rest

end

/-- **The register elements of a node**, in the order of its registers and clusters.  Those of an
array follow each other. -/
def located (registers : List Register) (clusters : List Cluster) : List Located :=
  registers.flatMap Register.located ++ clusters.flatMap Cluster.located

/-- The register elements of a peripheral. -/
def Peripheral.located (p : Peripheral) : List Located := Map.located p.registers p.clusters

theorem clustersLocated_eq_flatMap (clusters : List Cluster) :
    clustersLocated clusters = clusters.flatMap Cluster.located := by
  induction clusters with
  | nil => rfl
  | cons c rest ih => simp [clustersLocated, ih]

theorem Cluster.located_eq (c : Cluster) :
    c.located = (offsets c.addressOffset c.vector).flatMap fun base =>
      (Map.located c.registers c.clusters).map (.shift base) := by
  cases c
  simp [Cluster.located, Map.located, clustersLocated_eq_flatMap]

/-- **Induction over clusters and those inside them**, which follows lists of clusters in both
directions. -/
theorem clusters_induct {motive : List Cluster → Prop} (nil : motive [])
    (cons : ∀ c rest, motive c.clusters → motive rest → motive (c :: rest)) :
    ∀ clusters, motive clusters
  | [] => nil
  | c :: rest =>
      cons c rest (clusters_induct nil cons c.clusters) (clusters_induct nil cons rest)
termination_by clusters => sizeOf clusters
decreasing_by
  · cases c
    simp_wf
    omega
  · simp_wf

/-- **Induction from the clusters inside to those around them.** -/
theorem clusters_step {motive : List Cluster → Prop}
    (step : ∀ clusters, (∀ c ∈ clusters, motive c.clusters) → motive clusters)
    (clusters : List Cluster) : motive clusters := by
  refine step clusters ?_
  induction clusters using clusters_induct with
  | nil => exact fun c hc => nomatch hc
  | cons c rest inner others =>
      intro c' hc'
      rcases List.mem_cons.mp hc' with rfl | hc'
      · exact step _ inner
      · exact others c' hc'

/-! ### Clamped offsets -/

theorem clamp_clamp_add (a b : Nat) : clamp (clamp a + b) = clamp (a + b) := by
  simp only [clamp, Word.greatest]
  omega

theorem clamp_add_clamp (a b : Nat) : clamp (a + clamp b) = clamp (a + b) := by
  simp only [clamp, Word.greatest]
  omega

/-- The bytes of an element in a node that starts at `base`, as far as words go. -/
def Located.clampedSpan (base : Nat) (l : Located) : Span :=
  ⟨clamp (base + l.offset), clamp (base + l.offset + l.register.byteSize)⟩

theorem Located.clampedSpan_clamp (base : Nat) (l : Located) :
    l.clampedSpan (clamp base) = l.clampedSpan base := by
  rw [clampedSpan, clampedSpan, clamp_clamp_add, Nat.add_assoc, clamp_clamp_add, Nat.add_assoc]

theorem Located.clampedSpan_shift (base inner : Nat) (l : Located) :
    (l.shift inner).clampedSpan base = l.clampedSpan (base + inner) := by
  rw [clampedSpan, clampedSpan, shift, Nat.add_assoc base inner l.offset]

/-- The elements of a node begin at its offsets, as far as words go. -/
theorem map_elements (base : Nat) (offset : Word) (vector : Option Vector) :
    (elements offset vector).map (fun e => clampedAdd base e.2) =
      (offsets offset vector).map fun o => clamp (base + o) := by
  cases vector with
  | none => rfl
  | some v =>
      rw [elements, offsets, List.map_map, List.map_map]
      refine List.map_congr_left fun i _ => ?_
      simp only [Function.comp_apply, elementOffset, clampedAdd, clampedMul, clamp_add_clamp]

theorem registers_spans_eq (base : Nat) (lead : String) (registers : List Register) :
    (registers.flatMap (Register.elementSpans base lead)).map (·.span) =
      (registers.flatMap Register.located).map (Located.clampedSpan base) := by
  rw [List.map_flatMap, List.map_flatMap]
  congr 1
  funext r
  have starts := congrArg
    (List.map fun start => (⟨start, clampedAdd start r.byteSize⟩ : Span))
    (map_elements base r.addressOffset r.vector)
  rw [Register.elementSpans, Register.located]
  simp only [List.map_map, Function.comp_def] at starts ⊢
  rw [starts]
  simp only [Located.clampedSpan, clampedAdd, clamp_clamp_add]

theorem Cluster.elementSpans_eq (base : Nat) (lead : String) (c : Cluster) :
    c.elementSpans base lead = (elements c.addressOffset c.vector).flatMap fun e =>
      Map.elementSpans (clampedAdd base e.2) (lead ++ c.name ++ e.1 ++ ".") c.registers
        c.clusters := by
  cases c
  simp only [Cluster.elementSpans, Map.elementSpans, clusterElementSpans_eq_flatMap]

/-- The elements in some clusters are where the exact offsets say, as far as words go. -/
theorem clusters_spans_eq (clusters : List Cluster) : ∀ (base : Nat) (lead : String),
    (clusters.flatMap (Cluster.elementSpans base lead)).map (·.span) =
      (clusters.flatMap Cluster.located).map (Located.clampedSpan base) := by
  induction clusters using clusters_induct with
  | nil =>
      intro base lead
      rfl
  | cons c rest inner others =>
      intro base lead
      have level (start : Nat) (lead : String) :
          (Map.elementSpans start lead c.registers c.clusters).map (·.span) =
            (Map.located c.registers c.clusters).map (Located.clampedSpan start) := by
        rw [elementSpans, Map.located, List.map_append, List.map_append, registers_spans_eq, inner]
      -- Each element of the array begins where the list of elements says.
      have starts := congrArg
        (List.flatMap fun start =>
          (Map.located c.registers c.clusters).map (Located.clampedSpan start))
        (map_elements base c.addressOffset c.vector)
      rw [List.flatMap_cons, List.flatMap_cons, List.map_append, List.map_append, others,
        Cluster.elementSpans_eq, Cluster.located_eq, List.map_flatMap, List.map_flatMap]
      congr 1
      simp only [level]
      rw [List.flatMap_map, List.flatMap_map] at starts
      rw [starts, List.map_flatMap]
      congr 1
      funext o
      rw [List.map_map]
      refine List.map_congr_left fun l _ => ?_
      rw [Located.clampedSpan_clamp, Function.comp_apply, Located.clampedSpan_shift]

/-- **The elements of a node are where the exact offsets say**, as far as words go.  Names play no
part in this. -/
theorem elementSpans_eq (base : Nat) (lead : String) (registers : List Register)
    (clusters : List Cluster) :
    (elementSpans base lead registers clusters).map (·.span) =
      (located registers clusters).map (Located.clampedSpan base) := by
  rw [elementSpans, located, List.map_append, List.map_append, registers_spans_eq,
    clusters_spans_eq]

/-! ### Elements that share no byte -/

/-- **No two elements of a peripheral share a byte** when no overlap is reported and every
element ends where a word can say it. -/
theorem disjoint_of_quiet {p : Peripheral} (quiet : overlaps p.elementSpans = [])
    (fits : ∀ l ∈ p.located, l.span.stop ≤ Word.greatest) :
    p.located.Pairwise fun a b => ¬a.span.Meets b.span := by
  have exact_ : p.elementSpans.map (·.span) = p.located.map Located.span := by
    rw [Peripheral.elementSpans, elementSpans_eq]
    refine List.map_congr_left fun l hl => ?_
    have ends : l.offset + l.register.byteSize ≤ Word.greatest := fits l hl
    rw [Located.clampedSpan, Nat.zero_add, clamp_of_le ends, clamp_of_le (by omega), Located.span]
  have apart : (p.elementSpans.map (·.span)).Pairwise fun a b => ¬a.Meets b :=
    List.pairwise_map.mpr (disjoint_of_overlaps quiet)
  rw [exact_] at apart
  exact List.pairwise_map.mp apart

end ChipMap.Map
