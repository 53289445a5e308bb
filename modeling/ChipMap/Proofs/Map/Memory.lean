import ChipMap.Proofs.Map.Arranged
import ChipMap.Proofs.Map.Counted
import ChipMap.Proofs.Map.Extent

/-!
# The memory of a description

Where the registers of a description are can be said before a map is built: each element of a node
has a position, once for each element of the nodes around it (`levelSpans`), and the nodes of a
level take room (`levelRooms`).  **The map that is built occupies just that**
(`buildItems_occupies`): its register elements have these bytes, in some order, and its extent is
the smallest range that holds these rooms.

### What is load-bearing

An array becomes one node for each element or a single node, as its name says.  For the register
elements this makes no difference.  For the room there is one exception, an array without elements:
when it is expanded there is no node, and otherwise there is a node that takes the room of one
element (`roomPositions`).

Rooms that are not listed alike, such as that of an array and those of its elements, may still be
held by the same ranges (`SameRoom`), and then their hulls are equal.

Neither list mentions names, identifiers or an order of nodes.  Two descriptions that differ in
these only have the same lists, and so the memory of their maps can be compared without comparing
the maps.
-/

namespace ChipMap.Map

open Description (Dimension Properties Item ClusterInfo)

/-! ### Rooms -/

/-- **Two lists of ranges that take the same room**: they are held by the same ranges, and they are
both empty or both not. -/
def SameRoom (xs ys : List Span) : Prop :=
  (xs = [] ↔ ys = []) ∧ ∀ t : Span, (∀ s ∈ xs, s.Within t) ↔ ∀ s ∈ ys, s.Within t

namespace SameRoom

variable {xs ys zs xs' ys' : List Span}

theorem refl (xs : List Span) : SameRoom xs xs := ⟨.rfl, fun _ => .rfl⟩

theorem trans (h : SameRoom xs ys) (h' : SameRoom ys zs) : SameRoom xs zs :=
  ⟨h.1.trans h'.1, fun t => (h.2 t).trans (h'.2 t)⟩

theorem of_perm (p : xs.Perm ys) : SameRoom xs ys :=
  ⟨⟨fun none_ => (none_ ▸ p).symm.eq_nil, fun none_ => (none_ ▸ p).eq_nil⟩, fun _ =>
    ⟨fun h s hs => h s (p.symm.subset hs), fun h s hs => h s (p.subset hs)⟩⟩

theorem append (h : SameRoom xs ys) (h' : SameRoom xs' ys') :
    SameRoom (xs ++ xs') (ys ++ ys') := by
  refine ⟨?_, fun t => ?_⟩
  · rw [List.append_eq_nil_iff, List.append_eq_nil_iff, h.1, h'.1]
  · rw [List.forall_mem_append, List.forall_mem_append, h.2, h'.2]

/-- **Equal rooms have equal hulls.** -/
theorem hullOf_eq (h : SameRoom xs ys) : hullOf xs = hullOf ys := by
  by_cases none_ : xs = []
  · rw [none_, h.1.mp none_]
  · have some_ : ys ≠ [] := fun none' => none_ (h.1.mpr none')
    refine Span.Within.antisymm ?_ ?_
    · exact (hullOf_within_iff none_).mpr ((h.2 _).mpr fun s hs => within_hullOf hs)
    · exact (hullOf_within_iff some_).mpr ((h.2 _).mp fun s hs => within_hullOf hs)

end SameRoom

/-! ### Positions -/

/-- The positions of the elements of a node, be they nodes of their own or not. -/
def elementPositions (offset : Word) : Option Dimension → List Nat
  | none => [offset.toNat]
  | some d => (List.range d.count.toNat).map fun i =>
      elementOffset offset.toNat i d.increment.toNat

/-- The positions where a node takes room: those of its elements.  An array without elements takes
the room of one, unless it is expanded. -/
def roomPositions (name : String) (offset : Word) : Option Dimension → List Nat
  | none => [offset.toNat]
  | some d =>
    if d.count = 0 ∧ isExpanded name = false then [offset.toNat]
    else elementPositions offset (some d)

theorem elementOffset_zero (offset : Word) (increment : Nat) :
    elementOffset offset.toNat 0 increment = offset.toNat := by
  rw [elementOffset, clampedMul, Nat.zero_mul, clampedAdd, clamp_add_clamp, Nat.add_zero,
    clamp_of_le offset.toNat_le_greatest]

section Placements

variable {dimension : Option Dimension} (counted : ∀ d ∈ dimension, d.Counted)

include counted

/-- The elements of an array are as many as it says, each at its position.  Written names enter here
only by their number. -/
theorem map_snd_indexed {d : Dimension} (hd : d ∈ dimension) (start : Nat) :
    (indexed start d).map Prod.snd =
      (List.range d.count.toNat).map fun i => elementOffset start i d.increment.toNat := by
  have length : d.elements.length = d.count.toNat := counted d hd
  rw [indexed, List.map_map, ← length, List.range_eq_range', ← List.zipIdx_map_snd 0 d.elements,
    List.map_map]
  rfl

/-- **The placements of a node have its elements between them.** -/
theorem placements_positions (name : String) (offset : Word) :
    (placements name offset dimension).flatMap (fun p =>
      (elements p.offset p.vector).map Prod.snd) = elementPositions offset dimension := by
  cases dimension with
  | none => rfl
  | some d =>
      rw [placements]
      split
      · rw [elementPositions, ← map_snd_indexed counted rfl, List.flatMap_map, List.map_eq_flatMap]
        refine List.flatMap_congr ?_
        rintro ⟨index, position⟩ hi
        obtain ⟨⟨_, i⟩, -, same⟩ := List.mem_map.mp hi
        obtain ⟨-, rfl⟩ := Prod.mk.inj same
        have small : elementOffset offset.toNat i d.increment.toNat < 2 ^ 64 :=
          Nat.lt_of_le_of_lt (clamp_le _) (by decide)
        simpa [elements] using small
      · rw [List.flatMap_singleton, elements, List.map_map]
        rfl

omit counted in
/-- An array takes the room of its elements. -/
theorem arraySpan_sameRoom (offset : Word) (size : Nat) {v : Vector} (some_ : v.count ≠ 0) :
    SameRoom [arraySpan offset size (some v)]
      ((elements offset (some v)).map fun e => ⟨e.2, clampedAdd e.2 size⟩) := by
  have positive : 0 < v.count.toNat := Nat.pos_of_ne_zero fun none_ =>
    some_ (BitVec.eq_of_toNat_eq none_)
  have element {i : Nat} (hi : i < v.count.toNat) :
      (⟨elementOffset offset.toNat i v.stride.toNat,
        clampedAdd (elementOffset offset.toNat i v.stride.toNat) size⟩ : Span) ∈
      (elements offset (some v)).map fun e => (⟨e.2, clampedAdd e.2 size⟩ : Span) := by
    rw [elements, List.map_map]
    exact List.mem_map.mpr ⟨i, List.mem_range.mpr hi, rfl⟩
  refine ⟨iff_of_false (List.cons_ne_nil _ _) (List.ne_nil_of_mem (element positive)), fun t => ?_⟩
  rw [List.forall_mem_singleton]
  constructor
  · intro inside s hs
    obtain ⟨e, he, rfl⟩ := List.mem_map.mp hs
    exact (element_within size he).trans inside
  · -- The array begins with its first element and ends with its last one.
    intro each
    have first := (each _ (element positive)).1
    have last := (each _ (element (Nat.sub_one_lt_of_lt positive))).2
    rw [elementOffset_zero] at first
    exact ⟨first, last⟩

/-- **The placements of a node take the room that the node does.**  The two marks of arrays are two
cases here, and nowhere else. -/
theorem placements_sameRoom (name : String) (offset : Word) (size : Nat) :
    SameRoom ((placements name offset dimension).map fun p => arraySpan p.offset size p.vector)
      ((roomPositions name offset dimension).map fun position =>
        ⟨position, clampedAdd position size⟩) := by
  have elements_ : (elementPositions offset dimension).map
      (fun position => (⟨position, clampedAdd position size⟩ : Span)) =
        (placements name offset dimension).flatMap fun p =>
          (elements p.offset p.vector).map fun e => ⟨e.2, clampedAdd e.2 size⟩ := by
    rw [← placements_positions counted name, List.map_flatMap]
    simp only [List.map_map, Function.comp_def]
  cases dimension with
  | none =>
      rw [roomPositions]
      exact .refl _
  | some d =>
      rw [roomPositions]
      cases expanded_ : isExpanded name with
      | true =>
          rw [if_neg (by simp), elements_, placements, if_pos expanded_, List.flatMap_map,
            List.map_map, List.map_eq_flatMap]
          exact .refl _
      | false =>
          rw [placements, if_neg (by simp [expanded_])] at elements_ ⊢
          rw [List.flatMap_singleton] at elements_
          by_cases none_ : d.count = 0
          · -- An array without elements takes the room of one.
            have last : d.count.toNat - 1 = 0 := by rw [none_]; rfl
            rw [if_pos ⟨none_, rfl⟩, List.map_singleton, List.map_singleton, arraySpan]
            dsimp only
            rw [last, elementOffset_zero]
            exact .refl _
          · rw [if_neg fun h => none_ h.1, elements_]
            exact arraySpan_sameRoom offset size none_

end Placements

/-! ### What a description occupies -/

/-- The positions of the elements of a child of a node. -/
def itemPositions : Item → List Nat
  | .register r => r.addressOffset.toList.flatMap fun offset => elementPositions offset r.dimension
  | .cluster info _ =>
    info.addressOffset.toList.flatMap fun offset => elementPositions offset info.dimension

/-- The positions where a child of a node takes room. -/
def itemRoomPositions : Item → List Nat
  | .register r =>
    r.addressOffset.toList.flatMap fun offset => roomPositions r.name offset r.dimension
  | .cluster info _ =>
    info.addressOffset.toList.flatMap fun offset => roomPositions info.name offset info.dimension

/-- The array that a child of a node is, if it is one. -/
def itemDimension : Item → Option Dimension
  | .register r => r.dimension
  | .cluster info _ => info.dimension

section ItemPlacements

variable (item : Item) (counted : ∀ d ∈ itemDimension item, d.Counted) (affix : Affix)

include counted

/-- **The placements of a child have its elements between them.** -/
theorem itemPlacements_positions : (itemPlacements affix item).flatMap (fun p =>
    (elements p.offset p.vector).map Prod.snd) = itemPositions item := by
  cases item with
  | register r =>
      rw [itemPlacements, itemPositions]
      cases r.addressOffset with
      | none => rfl
      | some offset =>
          rw [Option.toList_some, List.flatMap_singleton, List.flatMap_singleton, List.flatMap_map]
          exact placements_positions counted r.name offset
  | cluster info children =>
      rw [itemPlacements, itemPositions]
      cases info.addressOffset with
      | none => rfl
      | some offset =>
          rw [Option.toList_some, List.flatMap_singleton, List.flatMap_singleton]
          exact placements_positions counted info.name offset

/-- **The placements of a child take the room that it does.** -/
theorem itemPlacements_sameRoom (size : Nat) :
    SameRoom ((itemPlacements affix item).map fun p => arraySpan p.offset size p.vector)
      ((itemRoomPositions item).map fun position => ⟨position, clampedAdd position size⟩) := by
  cases item with
  | register r =>
      rw [itemPlacements, itemRoomPositions]
      cases r.addressOffset with
      | none => exact .refl []
      | some offset =>
          rw [Option.toList_some, List.flatMap_singleton, List.flatMap_singleton, List.map_map]
          exact placements_sameRoom counted r.name offset size
  | cluster info children =>
      rw [itemPlacements, itemRoomPositions]
      cases info.addressOffset with
      | none => exact .refl []
      | some offset =>
          rw [Option.toList_some, List.flatMap_singleton, List.flatMap_singleton]
          exact placements_sameRoom counted info.name offset size

end ItemPlacements

/-- The bytes of an element of a register, when the nodes around it pass `outer` on.  Bits that fill
no byte take one. -/
def elementBytes (outer : Properties) (r : Description.Register) : Nat :=
  (((r.properties.orElse outer).size.getD defaultSize).toNat + 7) / 8

mutual

/-- The bytes of every register element in a child of a node that starts at `base`. -/
def itemSpans (base : Nat) (outer : Properties) : Item → List Span
  | .register r =>
    (itemPositions (.register r)).map fun position =>
      let start := clampedAdd base position
      ⟨start, clampedAdd start (elementBytes outer r)⟩
  | .cluster info children =>
    (itemPositions (.cluster info [])).flatMap fun position =>
      levelSpans (clampedAdd base position) (info.properties.orElse outer) children

/-- **The bytes of every register element in the children of a node** that starts at `base`. -/
def levelSpans (base : Nat) (outer : Properties) : List Item → List Span
  | [] => []
  | item :: rest => itemSpans base outer item ++ levelSpans base outer rest

end

mutual

/-- The room that a child of a node takes. -/
def itemRooms (outer : Properties) : Item → List Span
  | .register r =>
    (itemRoomPositions (.register r)).map fun position =>
      ⟨position, clampedAdd position (elementBytes outer r)⟩
  | .cluster info children =>
    (itemRoomPositions (.cluster info [])).map fun position =>
      ⟨position, clampedAdd position
        (hullOf (levelRooms (info.properties.orElse outer) children)).stop⟩

/-- **The room that the children of a node take.** -/
def levelRooms (outer : Properties) : List Item → List Span
  | [] => []
  | item :: rest => itemRooms outer item ++ levelRooms outer rest

end

theorem levelSpans_eq_flatMap (base : Nat) (outer : Properties) (children : List Item) :
    levelSpans base outer children = children.flatMap (itemSpans base outer) := by
  induction children with
  | nil => rfl
  | cons c rest ih => rw [levelSpans, ih, List.flatMap_cons]

theorem levelRooms_eq_flatMap (outer : Properties) (children : List Item) :
    levelRooms outer children = children.flatMap (itemRooms outer) := by
  induction children with
  | nil => rfl
  | cons c rest ih => rw [levelRooms, ih, List.flatMap_cons]

/-! ### What a map occupies -/

/-- The bytes of the register elements of an entry of a node that starts at `base`. -/
def Entry.spans (base : Nat) : Entry → List Span
  | .register r => (r.elementSpans base "").map (·.span)
  | .cluster c => (c.elementSpans base "").map (·.span)

/-- The bytes of an entry, relative to its node. -/
def Entry.room : Entry → Span
  | .register r => r.span
  | .cluster c => c.span

/-- The bytes of the register elements of a level that starts at `base`. -/
def Contents.spans (base : Nat) (c : Contents) : List Span :=
  (elementSpans base "" c.registers c.clusters).map (·.span)

theorem map_span_elementSpans (base : Nat) (lead : String) (c : Contents) :
    (elementSpans base lead c.registers c.clusters).map (·.span) = c.spans base := by
  rw [Contents.spans, elementSpans_eq, elementSpans_eq]

theorem Contents.spans_eq (base : Nat) (c : Contents) :
    c.spans base = c.entries.flatMap (Entry.spans base) := by
  rw [spans, entries, elementSpans, List.map_append, List.map_flatMap, List.map_flatMap,
    List.flatMap_append, List.flatMap_map, List.flatMap_map]
  rfl

theorem Contents.extent_eq (c : Contents) :
    extent c.registers c.clusters = hullOf (c.entries.map Entry.room) := by
  rw [entries, List.map_append, List.map_map, List.map_map]
  rfl

/-- The elements of a cluster are those of its level, once for each element of the cluster. -/
theorem Entry.spans_cluster (base : Nat) (c : Cluster) :
    (Entry.cluster c).spans base = ((elements c.addressOffset c.vector).map Prod.snd).flatMap
      fun position => Contents.spans (clampedAdd base position) ⟨c.registers, c.clusters⟩ := by
  rw [spans, Cluster.elementSpans_eq, List.map_flatMap, List.flatMap_map]
  exact List.flatMap_congr fun e _ => map_span_elementSpans _ _ ⟨c.registers, c.clusters⟩

theorem Entry.spans_register (base : Nat) (r : Register) :
    (Entry.register r).spans base =
      ((elements r.addressOffset r.vector).map Prod.snd).map fun position =>
        ⟨clampedAdd base position, clampedAdd (clampedAdd base position) r.byteSize⟩ := by
  rw [spans, Register.elementSpans, List.map_map, List.map_map]
  rfl

theorem Entry.spans_rename (base : Nat) (e : Entry) (n : String) :
    (e.rename n).spans base = e.spans base := by
  cases e with
  | register r => rw [rename, spans_register, spans_register]; rfl
  | cluster c => rw [rename, spans_cluster, spans_cluster]

theorem Entry.room_rename (e : Entry) (n : String) : (e.rename n).room = e.room := by
  cases e with
  | register r => rfl
  | cluster c =>
      rw [rename, room, room, Cluster.span_eq, Cluster.span_eq]

/-! ### What is built -/

/-- **Entries occupy what a child of a node does.**  For the register elements this is said at every
base, because the induction moves it. -/
structure Occupies (outer : Properties) (item : Item) (entries : List Entry) : Prop where
  /-- Their register elements have the same bytes, in some order. -/
  spans : ∀ base, (entries.flatMap (Entry.spans base)).Perm (itemSpans base outer item)
  /-- They take the same room. -/
  rooms : SameRoom (entries.map Entry.room) (itemRooms outer item)

section Built

variable {parent : String} {outer : Properties} {affix : Affix}

/-- **A level occupies what its children do**, when the entries do. -/
theorem arrange_occupies {children : List Item} {entries : List Entry}
    (h : buildItems parent outer affix children = .ok entries)
    (each : ∀ c ∈ children, ∀ own, buildItem parent outer affix c = .ok own →
      Occupies outer c own) :
    (∀ base, ((arrange entries).spans base).Perm (levelSpans base outer children)) ∧
      extent (arrange entries).registers (arrange entries).clusters =
        hullOf (levelRooms outer children) := by
  obtain ⟨lists, hlists, rfl⟩ := buildItems_ok h
  have occupied : List.Forall₂ (Occupies outer) children lists :=
    (forall₂_members hlists).imp fun c own ⟨hc, _, done⟩ => each c hc own done
  constructor
  · intro base
    have kept := (arrange_kept (Entry.spans_rename base) lists.flatten).flatten
    rw [← List.flatMap_def, ← List.flatMap_def, ← Contents.spans_eq] at kept
    refine kept.trans ?_
    clear kept h hlists each
    induction occupied with
    | nil => exact .nil
    | cons head _ ih =>
        rw [List.flatten_cons, List.flatMap_append, levelSpans]
        exact (head.spans base).append ih
  · rw [Contents.extent_eq]
    refine SameRoom.hullOf_eq (.trans (.of_perm (arrange_kept Entry.room_rename _)) ?_)
    clear h hlists each
    induction occupied with
    | nil => exact .refl _
    | cons head _ ih =>
        rw [List.flatten_cons, List.map_append, levelRooms]
        exact head.rooms.append ih

/-- **What a child is built to occupies what the child does**, by induction over the child.  The
arrays in it have to be counted. -/
theorem buildItem_occupies (item : Item) : ∀ {parent : String} {outer : Properties} {affix : Affix}
    {entries : List Entry}, item.Counted → buildItem parent outer affix item = .ok entries →
      Occupies outer item entries := by
  induction item using Item.induct with
  | register r =>
      intro parent outer affix entries counted h
      have counted := counted.of_register
      obtain ⟨built, hbuilt, rfl⟩ := buildItem_register_ok h
      obtain ⟨fields, -, -, placed⟩ := buildRegister_ok hbuilt
      constructor
      · intro base
        have spans : (itemPlacements affix (.register r)).map (fun p =>
            ((elements p.offset p.vector).map Prod.snd).map fun position =>
              (⟨clampedAdd base position, clampedAdd (clampedAdd base position)
                (elementBytes outer r)⟩ : Span)) =
              built.map fun x => (Entry.register x).spans base := by
          refine Name.map_eq_of_forall₂ (placed.imp ?_)
          rintro p _ ⟨id, -, rfl⟩
          exact (Entry.spans_register base (placedRegister _ r fields p id)).symm
        rw [List.flatMap_map, List.flatMap_def, ← spans, ← List.flatMap_def, ← List.map_flatMap,
          itemPlacements_positions (.register r) counted, itemSpans]
      · have rooms : (itemPlacements affix (.register r)).map (fun p =>
            arraySpan p.offset (elementBytes outer r) p.vector) =
              built.map fun x => (Entry.register x).room := by
          refine Name.map_eq_of_forall₂ (placed.imp ?_)
          rintro p _ ⟨id, -, rfl⟩
          rfl
        rw [List.map_map, itemRooms]
        exact rooms ▸ itemPlacements_sameRoom (.register r) counted affix _
  | cluster info children ih =>
      intro parent outer affix entries counted h
      obtain ⟨counted, inside⟩ := counted.of_cluster
      obtain ⟨inner, hinner, placed⟩ := buildItem_cluster_ok h
      -- The clusters that are placed share one level, whose spans and extent are known by
      -- induction.
      obtain ⟨level, extent_⟩ := arrange_occupies hinner fun c hc own done =>
        ih c hc (inside c hc) done
      constructor
      · intro base
        have spans : (itemPlacements affix (.cluster info children)).map (fun p =>
            ((elements p.offset p.vector).map Prod.snd).flatMap fun position =>
              (arrange inner).spans (clampedAdd base position)) =
              entries.map (Entry.spans base) := by
          refine Name.map_eq_of_forall₂ (placed.imp ?_)
          rintro p _ ⟨id, -, rfl⟩
          exact (Entry.spans_cluster base (placedCluster info (arrange inner) p id)).symm
        rw [List.flatMap_def, ← spans, ← List.flatMap_def, ← List.flatMap_assoc,
          itemPlacements_positions (.cluster info children) counted, itemSpans]
        exact List.Perm.flatMap_left _ fun position _ => level _
      · have rooms : (itemPlacements affix (.cluster info children)).map (fun p =>
            arraySpan p.offset (hullOf (levelRooms (info.properties.orElse outer) children)).stop
              p.vector) = entries.map Entry.room := by
          refine Name.map_eq_of_forall₂ (placed.imp ?_)
          rintro p _ ⟨id, -, rfl⟩
          rw [Entry.room, Cluster.span_eq, ← extent_]
          rfl
        rw [itemRooms, ← rooms]
        exact itemPlacements_sameRoom (.cluster info children) counted affix _

/-- **A level that is built occupies what its children do**: its register elements have their bytes,
and its extent is the smallest range that holds their rooms. -/
theorem buildItems_occupies {children : List Item} {entries : List Entry}
    (counted : ∀ c ∈ children, c.Counted)
    (h : buildItems parent outer affix children = .ok entries) :
    (∀ base, ((arrange entries).spans base).Perm (levelSpans base outer children)) ∧
      extent (arrange entries).registers (arrange entries).clusters =
        hullOf (levelRooms outer children) :=
  arrange_occupies h fun c hc _ done => buildItem_occupies c (counted c hc) done

end Built

end ChipMap.Map
