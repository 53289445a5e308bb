import ChipMap.Map.OfDescription
import ChipMap.Proofs.Map.Located
import ChipMap.Source.Module

/-!
# The room that registers and clusters take

A member takes more bytes than the register elements in it have: a register is rounded up to an
integer, and a cluster is a struct from its start to the end of its last member, or to the start of
the next element of an array.  `pieces` lists what one element of each register and cluster of a
node takes, and **`AddsNoOverlap` says that two of them share a byte only if register elements in
them do**.

### What is load-bearing

The elements of the pieces are exactly the register elements of the node (`flatMap_elements`), in
the same order, and each lies in the room of its piece (`pieces_hold`).  So elements that share no
byte make pieces that share none, as long as the room adds no overlap (`AddsNoOverlap.disjoint`).

Room is computed from the map, without a slot or a struct.  The condition can be checked of a map
before anything is exported, and the proof that structs take just this room is elsewhere.
-/

namespace ChipMap.Source

open Map (Register Cluster Peripheral Vector Located)

/-- The size of a struct that ends at `stop`, when the elements of its array are `stride` apart.  A
struct that is longer than that keeps its size. -/
def paddedSize (stride : Option Nat) (stop : Nat) : Nat :=
  match stride with
  | some s => if stop ≤ s then s else stop
  | none => stop

/-- The distance of the elements of a cluster that is an array. -/
def strideOf (c : Cluster) : Option Nat := c.vector.map fun v => v.stride.toNat

/-! ### Pieces -/

/-- **One element of a register or cluster**, as its member takes room. -/
structure Piece where
  /-- The distance from the start of the node in bytes. -/
  offset : Nat
  /-- The bytes that its member takes. -/
  size : Nat
  /-- The register or cluster. -/
  node : Map.Entry

namespace Piece

def room (q : Piece) : Span := ⟨q.offset, q.offset + q.size⟩

/-- The register elements in a piece, as the node around it sees them. -/
def elements (q : Piece) : List Located :=
  match q.node with
  | .register r => [⟨q.offset, r⟩]
  | .cluster c => (Map.located c.registers c.clusters).map (.shift q.offset)

end Piece

/-- The pieces of a register. -/
def registerPieces (r : Register) : List Piece :=
  (Map.offsets r.addressOffset r.vector).map fun offset =>
    ⟨offset, (Storage.ofSize r.size).bytes, .register r⟩

/-- The end of the last of some pieces, and zero without any. -/
def piecesEnd (pieces : List Piece) : Nat := (pieces.map fun q => q.room.stop).foldr max 0

mutual

/-- The pieces of a cluster.  A cluster without a byte has none. -/
def clusterPieces : Cluster → List Piece
  | ⟨name, description, offset, vector, registers, clusters⟩ =>
    let stop := piecesEnd (registers.flatMap registerPieces ++ clustersPieces clusters)
    if stop = 0 then []
    else
      (Map.offsets offset vector).map fun base =>
        ⟨base, paddedSize (vector.map fun v => v.stride.toNat) stop,
          .cluster ⟨name, description, offset, vector, registers, clusters⟩⟩

def clustersPieces : List Cluster → List Piece
  | [] => []
  | c :: rest => clusterPieces c ++ clustersPieces rest

end

/-- **The pieces of a node**, in the order of its registers and clusters. -/
def pieces (registers : List Register) (clusters : List Cluster) : List Piece :=
  registers.flatMap registerPieces ++ clusters.flatMap clusterPieces

/-! ### Levels -/

/-- **A level of a peripheral**: its own registers and clusters, or those of a cluster that
has an element. -/
inductive Level (p : Peripheral) : List Register → List Cluster → Prop
  | own : Level p p.registers p.clusters
  | inner {registers : List Register} {clusters : List Cluster} {c : Cluster} :
    Level p registers clusters → c ∈ clusters → Map.offsets c.addressOffset c.vector ≠ [] →
      Level p c.registers c.clusters

/-- **Members share bytes only where registers do**: at every level, two pieces that share a
byte hold register elements that share a byte. -/
def AddsNoOverlap (p : Peripheral) : Prop :=
  ∀ registers clusters, Level p registers clusters →
    (pieces registers clusters).Pairwise fun a b =>
      a.room.Meets b.room → ∃ l ∈ a.elements, ∃ m ∈ b.elements, l.span.Meets m.span

/-! ### The end of pieces -/

theorem clustersPieces_eq_flatMap (clusters : List Cluster) :
    clustersPieces clusters = clusters.flatMap clusterPieces := by
  induction clusters with
  | nil => rfl
  | cons c rest ih => simp [clustersPieces, ih]

theorem clusterPieces_eq (c : Cluster) :
    clusterPieces c =
      if piecesEnd (pieces c.registers c.clusters) = 0 then []
      else
        (Map.offsets c.addressOffset c.vector).map fun base =>
          ⟨base, paddedSize (strideOf c) (piecesEnd (pieces c.registers c.clusters)),
            .cluster c⟩ := by
  cases c
  simp only [clusterPieces, pieces, strideOf, clustersPieces_eq_flatMap]
  rfl

/-- The end of some pieces is a bound exactly when each of them ends before it. -/
theorem piecesEnd_le_iff {pieces : List Piece} {bound : Nat} :
    piecesEnd pieces ≤ bound ↔ ∀ q ∈ pieces, q.room.stop ≤ bound := by
  unfold piecesEnd
  induction pieces with
  | nil => simp
  | cons q rest ih =>
      rw [List.map_cons, List.foldr_cons, Nat.max_le, List.forall_mem_cons]
      exact and_congr_right fun _ => ih

theorem stop_le_piecesEnd {pieces : List Piece} {q : Piece} (h : q ∈ pieces) :
    q.room.stop ≤ piecesEnd pieces := piecesEnd_le_iff.mp (Nat.le_refl _) q h

theorem le_paddedSize (stride : Option Nat) (stop : Nat) : stop ≤ paddedSize stride stop := by
  unfold paddedSize
  split
  · split
    · assumption
    · exact Nat.le_refl _
  · exact Nat.le_refl _

theorem Storage.bytes_pos (s : Storage) : 0 < s.bytes := by
  cases s with
  | u8 => decide
  | u16 => decide
  | u32 => decide
  | u64 => decide

/-- **Every piece has a byte.** -/
theorem size_pos {registers : List Register} {clusters : List Cluster} {q : Piece}
    (h : q ∈ pieces registers clusters) : 0 < q.size := by
  rcases List.mem_append.mp h with h | h
  · obtain ⟨r, -, h⟩ := List.mem_flatMap.mp h
    obtain ⟨offset, -, rfl⟩ := List.mem_map.mp h
    exact Storage.bytes_pos _
  · obtain ⟨c, -, h⟩ := List.mem_flatMap.mp h
    rw [clusterPieces_eq] at h
    split at h
    · cases h
    · obtain ⟨base, -, rfl⟩ := List.mem_map.mp h
      exact Nat.lt_of_lt_of_le (Nat.pos_of_ne_zero ‹_›) (le_paddedSize _ _)

/-- A node without a byte has no piece, since every piece has one. -/
theorem piecesEnd_eq_zero_iff {registers : List Register} {clusters : List Cluster} :
    piecesEnd (pieces registers clusters) = 0 ↔ pieces registers clusters = [] := by
  constructor
  · intro zero
    cases all : pieces registers clusters with
    | nil => rfl
    | cons q rest =>
        have member : q ∈ pieces registers clusters := all ▸ List.mem_cons_self
        have positive := size_pos member
        have bound := stop_le_piecesEnd member
        simp only [Piece.room] at bound
        omega
  · intro none
    rw [none]
    rfl

/-! ### Pieces of clusters -/

theorem mem_of_piece {registers : List Register} {clusters : List Cluster} {q : Piece}
    (h : q ∈ pieces registers clusters) {c : Cluster} (node : q.node = .cluster c) :
    c ∈ clusters ∧ Map.offsets c.addressOffset c.vector ≠ [] := by
  rcases List.mem_append.mp h with h | h
  · obtain ⟨r, -, h⟩ := List.mem_flatMap.mp h
    obtain ⟨offset, -, rfl⟩ := List.mem_map.mp h
    cases node
  · obtain ⟨c', hc, h⟩ := List.mem_flatMap.mp h
    rw [clusterPieces_eq] at h
    split at h
    · cases h
    · obtain ⟨base, hbase, rfl⟩ := List.mem_map.mp h
      cases node
      exact ⟨hc, List.ne_nil_of_mem hbase⟩

/-- A cluster that has an element and a piece in it is a piece. -/
theorem exists_piece_of_cluster {registers : List Register} {clusters : List Cluster} {c : Cluster}
    (hc : c ∈ clusters) (some : Map.offsets c.addressOffset c.vector ≠ [])
    (inside : pieces c.registers c.clusters ≠ []) :
    ∃ q ∈ pieces registers clusters, q.node = .cluster c := by
  obtain ⟨base, hbase⟩ := List.exists_mem_of_ne_nil _ some
  have own : ∃ q ∈ clusterPieces c, q.node = .cluster c := by
    rw [clusterPieces_eq, if_neg (piecesEnd_eq_zero_iff.not.mpr inside)]
    exact ⟨_, List.mem_map_of_mem hbase, rfl⟩
  obtain ⟨q, hq, node⟩ := own
  exact ⟨q, List.mem_append_right _ (List.mem_flatMap.mpr ⟨c, hc, hq⟩), node⟩

/-! ### Pieces and elements -/

theorem flatMap_registerPieces (registers : List Register) :
    (registers.flatMap registerPieces).flatMap (·.elements) =
      registers.flatMap Register.located := by
  rw [List.flatMap_assoc]
  congr 1
  funext r
  rw [registerPieces, Map.Register.located, List.flatMap_map, List.map_eq_flatMap]
  rfl

theorem flatMap_clusterPieces (clusters : List Cluster) :
    (clusters.flatMap clusterPieces).flatMap (·.elements) = clusters.flatMap Cluster.located := by
  induction clusters using Map.clusters_induct with
  | nil => rfl
  | cons c rest inner others =>
      rw [List.flatMap_cons, List.flatMap_append, others, List.flatMap_cons]
      congr 1
      have inside : (pieces c.registers c.clusters).flatMap (·.elements) =
          Map.located c.registers c.clusters := by
        rw [pieces, List.flatMap_append, flatMap_registerPieces, inner, Map.located]
      rw [clusterPieces_eq, Map.Cluster.located_eq]
      split
      · next zero =>
        rw [piecesEnd_eq_zero_iff.mp zero] at inside
        rw [← inside]
        simp
      · rw [List.flatMap_map]
        rfl

/-- **The elements of the pieces are the register elements of the node**, in order. -/
theorem flatMap_elements (registers : List Register) (clusters : List Cluster) :
    (pieces registers clusters).flatMap (·.elements) = Map.located registers clusters := by
  rw [pieces, List.flatMap_append, flatMap_registerPieces, flatMap_clusterPieces, Map.located]

/-- An element of a piece begins in its room, and its integer ends there. -/
def Piece.Holds (q : Piece) : Prop :=
  ∀ l ∈ q.elements, q.offset ≤ l.offset ∧
    l.offset + (Storage.ofSize l.register.size).bytes ≤ q.room.stop

theorem registerPieces_hold {registers : List Register} :
    ∀ q ∈ registers.flatMap registerPieces, q.Holds := by
  intro q hq l hl
  obtain ⟨r, -, hq⟩ := List.mem_flatMap.mp hq
  obtain ⟨offset, -, rfl⟩ := List.mem_map.mp hq
  obtain rfl := List.mem_singleton.mp hl
  exact ⟨Nat.le_refl _, Nat.le_refl _⟩

theorem clusterPieces_hold (clusters : List Cluster) :
    ∀ q ∈ clusters.flatMap clusterPieces, q.Holds := by
  induction clusters using Map.clusters_induct with
  | nil => exact fun q hq => nomatch hq
  | cons c rest inner others =>
      intro q hq
      rcases List.mem_append.mp hq with hq | hq
      · rw [clusterPieces_eq] at hq
        split at hq
        · cases hq
        · obtain ⟨base, -, rfl⟩ := List.mem_map.mp hq
          intro l hl
          obtain ⟨l', inside, rfl⟩ := List.mem_map.mp hl
          rw [← flatMap_elements] at inside
          obtain ⟨q', hq', inside⟩ := List.mem_flatMap.mp inside
          have holds : q'.Holds := by
            rcases List.mem_append.mp hq' with hq' | hq'
            · exact registerPieces_hold q' hq'
            · exact inner q' hq'
          have ends := (holds l' inside).2
          have bound := stop_le_piecesEnd hq'
          have padded := le_paddedSize (strideOf c) (piecesEnd (pieces c.registers c.clusters))
          simp only [Located.shift, Piece.room] at ends bound ⊢
          omega
      · exact others q hq

/-- **Each element of a piece lies in its room.** -/
theorem pieces_hold {registers : List Register} {clusters : List Cluster} :
    ∀ q ∈ pieces registers clusters, q.Holds := by
  intro q hq
  rcases List.mem_append.mp hq with hq | hq
  · exact registerPieces_hold q hq
  · exact clusterPieces_hold clusters q hq

/-! ### Pieces that share no byte -/

/-- Elements of a cluster share no byte when they do not from outside. -/
theorem disjoint_of_cluster {c : Cluster} {base : Nat}
    (hbase : base ∈ Map.offsets c.addressOffset c.vector)
    (h : c.located.Pairwise fun a b => ¬a.span.Meets b.span) :
    (Map.located c.registers c.clusters).Pairwise fun a b => ¬a.span.Meets b.span := by
  rw [Map.Cluster.located_eq, List.pairwise_flatMap] at h
  refine (List.pairwise_map.mp (h.1 base hbase)).imp fun {a b} apart meets => apart ?_
  rw [Span.meets_iff] at meets ⊢
  simp only [Located.span, Located.shift] at meets ⊢
  omega

/-- **The elements of each level share no byte** when those of the peripheral do not, by induction
over the way down. -/
theorem Level.disjoint {p : Peripheral} {registers : List Register} {clusters : List Cluster}
    (h : Level p registers clusters)
    (apart : p.located.Pairwise fun a b => ¬a.span.Meets b.span) :
    (Map.located registers clusters).Pairwise fun a b => ¬a.span.Meets b.span := by
  induction h with
  | own => exact apart
  | @inner registers clusters c _ hc some ih =>
      obtain ⟨base, hbase⟩ := List.exists_mem_of_ne_nil _ some
      exact disjoint_of_cluster hbase
        ((List.pairwise_flatMap.mp (List.pairwise_append.mp ih).2.1).1 c hc)

/-- **The pieces of each level share no byte** when register elements share none and the room
adds no overlap. -/
theorem AddsNoOverlap.disjoint {p : Peripheral} (h : AddsNoOverlap p)
    (apart : p.located.Pairwise fun a b => ¬a.span.Meets b.span) {registers : List Register}
    {clusters : List Cluster} (level : Level p registers clusters) :
    (pieces registers clusters).Pairwise fun a b => ¬a.room.Meets b.room := by
  have elements := level.disjoint apart
  rw [← flatMap_elements, List.pairwise_flatMap] at elements
  refine (h registers clusters level).imp₂ ?_ elements.2
  intro a b shared apart meets
  obtain ⟨l, hl, m, hm, touch⟩ := shared meets
  exact apart l hl m hm touch

end ChipMap.Source
