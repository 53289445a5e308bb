import ChipMap.Map.Basic

/-!
# Where the nodes of a map are

Every register element occupies a range of bytes.  Positions stop at the greatest word, so that a
range never wraps around the end of the address space.  A node has two ranges: the smallest one from
its first to its last byte, and the list of those of its register elements, between which there may
be room.

* `elementOffset` — the position of an element of an array.
* `elements` — the elements of a register or cluster with their positions.
* `Register.span`, `Cluster.span` — the bytes from the first to the last element.
* `extent` — the smallest range that holds all registers and clusters of a node.
* `elementSpans` — the bytes of every register element, by name.

### What is load-bearing

Clusters nest, and lists of clusters stand inside clusters, so the functions here come in pairs: one
for a cluster and one for a list of them.  The second of each pair is the map or the join of the
first (`clusterSpans_eq_map`, `clusterElementSpans_eq_flatMap`), and proofs use it in that form.

An array without elements takes the room of one in a range from the first to the last element, and
none among the elements.  The two answers differ for such arrays only.
-/

namespace ChipMap.Map

/-- The position of the element with the number `i`.  Both steps stop at the greatest word, so an
array that is too long piles up there. -/
def elementOffset (start i increment : Nat) : Nat :=
  clampedAdd start (clampedMul i increment)

/-- The numbers of the elements in brackets, with their positions.  A node that is no array is one
element without a number. -/
def elements (offset : Word) : Option Vector → List (String × Nat)
  | none => [("", offset.toNat)]
  | some v =>
    (List.range v.count.toNat).map fun i =>
      ("[" ++ toString i ++ "]", elementOffset offset.toNat i v.stride.toNat)

/-- The bytes from the start of the first element to the end of the last one, when an element has
`size` bytes.  An array without elements has the range of one element. -/
def arraySpan (offset : Word) (size : Nat) (vector : Option Vector) : Span :=
  let last :=
    match vector with
    | none => offset.toNat
    | some v => elementOffset offset.toNat (v.count.toNat - 1) v.stride.toNat
  ⟨offset.toNat, clampedAdd last size⟩

/-- The bytes of a register, relative to the enclosing node. -/
def Register.span (r : Register) : Span :=
  arraySpan r.addressOffset r.byteSize r.vector

/-- The smallest range that holds two ranges. -/
def hull (a b : Span) : Span := ⟨min a.start b.start, max a.stop b.stop⟩

/-- The smallest range that holds all of some ranges; without a range it is empty at zero. -/
def hullOf : List Span → Span
  | [] => ⟨0, 0⟩
  | s :: rest => rest.foldl hull s

mutual

/-- The bytes of a cluster, relative to the enclosing node.  An element ends where the last of its
registers and clusters ends. -/
def Cluster.span : Cluster → Span
  | ⟨_, _, offset, vector, registers, clusters⟩ =>
    arraySpan offset (hullOf (registers.map Register.span ++ clusterSpans clusters)).stop vector

/-- The bytes of some clusters. -/
def clusterSpans : List Cluster → List Span
  | [] => []
  | c :: rest => c.span :: clusterSpans rest

end

theorem clusterSpans_eq_map (clusters : List Cluster) :
    clusterSpans clusters = clusters.map Cluster.span := by
  induction clusters with
  | nil => rfl
  | cons c rest ih => simp [clusterSpans, ih]

/-- The smallest range that holds all registers and clusters of a node.  It need not begin at
zero. -/
def extent (registers : List Register) (clusters : List Cluster) : Span :=
  hullOf (registers.map Register.span ++ clusters.map Cluster.span)

theorem Cluster.span_eq (c : Cluster) :
    c.span = arraySpan c.addressOffset (extent c.registers c.clusters).stop c.vector := by
  cases c
  simp [Cluster.span, extent, clusterSpans_eq_map]

/-- A range of bytes with the name of what occupies it. -/
structure NamedSpan where
  /-- The names that lead to the occupant, with dots between them. -/
  name : String
  /-- The bytes that it occupies. -/
  span : Span
deriving DecidableEq, Repr, Inhabited

/-- The bytes of every element of a register in a node that starts at `base`.  The names begin with
`lead`. -/
def Register.elementSpans (base : Nat) (lead : String) (r : Register) : List NamedSpan :=
  (elements r.addressOffset r.vector).map fun (suffix, offset) =>
    let start := clampedAdd base offset
    ⟨lead ++ r.name ++ suffix, ⟨start, clampedAdd start r.byteSize⟩⟩

mutual

/-- The bytes of every register element in a cluster, for every element of the cluster. -/
def Cluster.elementSpans (base : Nat) (lead : String) : Cluster → List NamedSpan
  | ⟨name, _, offset, vector, registers, clusters⟩ =>
    (elements offset vector).flatMap fun (suffix, offset) =>
      let start := clampedAdd base offset
      let inner := lead ++ name ++ suffix ++ "."
      registers.flatMap (Register.elementSpans start inner) ++
        clusterElementSpans start inner clusters

/-- The bytes of every register element in some clusters. -/
def clusterElementSpans (base : Nat) (lead : String) : List Cluster → List NamedSpan
  | [] => []
  | c :: rest => c.elementSpans base lead ++ clusterElementSpans base lead rest

end

theorem clusterElementSpans_eq_flatMap (base : Nat) (lead : String) (clusters : List Cluster) :
    clusterElementSpans base lead clusters = clusters.flatMap (Cluster.elementSpans base lead) := by
  induction clusters with
  | nil => rfl
  | cons c rest ih => simp [clusterElementSpans, ih]

/-- The bytes of every register element of a node that starts at `base`. -/
def elementSpans (base : Nat) (lead : String) (registers : List Register)
    (clusters : List Cluster) : List NamedSpan :=
  registers.flatMap (Register.elementSpans base lead) ++
    clusters.flatMap (Cluster.elementSpans base lead)

/-- The bytes of every register element of a peripheral, relative to its first address. -/
def Peripheral.elementSpans (p : Peripheral) : List NamedSpan :=
  Map.elementSpans 0 "" p.registers p.clusters

end ChipMap.Map
