import ChipMap.Proofs.Sequence
import ChipMap.Proofs.Source.Place
import ChipMap.Proofs.Source.Shape

/-!
# Slots and the pieces they take room for

A slot is a register, a struct, or an array of one of them, and it takes the room of one piece for
each of its elements (`Slot.Takes`).  **The slots of a struct take the pieces of its node**, each
piece once and in order (`Stands.grouped`).

### What is load-bearing

Arithmetic in slots is clamped and that of pieces is not.  A slot that ends where a word can say it
(`Slot.Fits`) was not clamped, and the size of a struct is that of its pieces because its slots fit;
so the induction over the shape carries sizes outwards.

Which piece belongs to which slot is kept as a list of groups, one for each slot (`Grouped`).
Grouping survives the appending of slots, their renaming and their nesting, and it gives both a slot
for every piece and the pieces of every slot.
-/

namespace ChipMap.Source

open Map (Register Cluster Peripheral Vector Located)

variable {structs : List StructDecl}

/-- The slot ends where a word can say it. -/
def Slot.Fits (structs : List StructDecl) (s : Slot) : Prop :=
  s.offset + s.bytes structs ≤ Word.greatest

/-- Structs that are written, and whose slots fit.  Structs inside of them are among those. -/
def Emitted (structs : List StructDecl) (blocks : List Block) : Prop :=
  ∀ b ∈ blocks, b.declaration ∈ structs ∧ ∀ s ∈ b.slots, s.Fits structs

/-- **The struct of a node** with the structs behind it, all of them written. -/
def Stands (structs : List StructDecl) (b : Block) (registers : List Register)
    (clusters : List Cluster) : Prop :=
  ∃ stride nested inner, Shaped clusters nested inner ∧
    BlockShaped registers stride nested inner (b :: inner) ∧ Emitted structs (b :: inner)

namespace Stands

variable {b : Block} {registers : List Register} {clusters : List Cluster}

theorem declared (h : Stands structs b registers clusters) : b.declaration ∈ structs := by
  obtain ⟨_, _, _, _, _, emitted⟩ := h
  exact (emitted b List.mem_cons_self).1

theorem fits (h : Stands structs b registers clusters) : ∀ s ∈ b.slots, s.Fits structs := by
  obtain ⟨_, _, _, _, _, emitted⟩ := h
  exact (emitted b List.mem_cons_self).2

end Stands

/-- **What a piece of a member of some kind is**: a register element of its storage, or an
element of a cluster whose struct has its name. -/
def Piece.Of (structs : List StructDecl) (q : Piece) : SlotKind → Prop
  | .register _ _ storage _ _ => ∃ r, q.node = .register r ∧ storage = Storage.ofSize r.size
  | .block name _ =>
    ∃ c, q.node = .cluster c ∧ ∃ b, b.name = name ∧ Stands structs b c.registers c.clusters

/-- The bytes of an element of a slot. -/
def Slot.element (structs : List StructDecl) (s : Slot) (i : Nat) : Span :=
  ⟨s.offset + i * s.kind.elementBytes structs,
    s.offset + i * s.kind.elementBytes structs + s.kind.elementBytes structs⟩

/-- **A slot takes the room of some pieces**, one for each of its elements. -/
structure Slot.Takes (structs : List StructDecl) (s : Slot) (group : List Piece) : Prop where
  /-- The slot counts on the exact size. -/
  counted : s.size = s.bytes structs
  present : 0 < s.kind.elements
  positive : 0 < s.kind.elementBytes structs
  rooms : group.map (·.room) = (List.range s.kind.elements).map (s.element structs)
  holds : ∀ q ∈ group, q.Of structs s.kind

/-- Slots take some pieces, each piece once and in order. -/
def Grouped (structs : List StructDecl) (slots : List Slot) (pieces : List Piece) : Prop :=
  ∃ groups : List (List Piece), pieces = groups.flatten ∧
    List.Forall₂ (Slot.Takes structs) slots groups

/-! ### Groups -/

namespace Grouped

theorem nil : Grouped structs [] [] := ⟨[], rfl, .nil⟩

theorem append {slots slots' : List Slot} {pieces pieces' : List Piece}
    (h : Grouped structs slots pieces) (h' : Grouped structs slots' pieces') :
    Grouped structs (slots ++ slots') (pieces ++ pieces') := by
  obtain ⟨groups, rfl, takes⟩ := h
  obtain ⟨groups', rfl, takes'⟩ := h'
  exact ⟨groups ++ groups', List.flatten_append.symm, List.rel_append takes takes'⟩

theorem rename {slots slots' : List Slot} {pieces : List Piece}
    (h : Grouped structs slots pieces)
    (renamed : List.Forall₂ (fun t s => t = { s with name := t.name }) slots' slots) :
    Grouped structs slots' pieces := by
  obtain ⟨groups, rfl, takes⟩ := h
  refine ⟨groups, rfl, ?_⟩
  induction renamed generalizing groups with
  | nil => exact takes
  | @cons t s slots' slots same _ ih =>
      cases takes with
      | cons first rest =>
          rw [same]
          refine .cons ⟨first.counted, first.present, first.positive, first.rooms, first.holds⟩ ?_
          exact ih _ rest

/-- Each piece is in the group of a slot. -/
theorem exists_slot {slots : List Slot} {pieces : List Piece}
    (h : Grouped structs slots pieces) {q : Piece} (hq : q ∈ pieces) :
    ∃ s ∈ slots, ∃ group, s.Takes structs group ∧ q ∈ group := by
  obtain ⟨groups, rfl, takes⟩ := h
  obtain ⟨group, hgroup, hq⟩ := List.mem_flatten.mp hq
  obtain ⟨s, hs, takes⟩ := exists_of_forall₂ takes.flip hgroup
  exact ⟨s, hs, group, takes, hq⟩

/-- Each slot has a group of pieces. -/
theorem exists_group {slots : List Slot} {pieces : List Piece}
    (h : Grouped structs slots pieces) {s : Slot} (hs : s ∈ slots) :
    ∃ group, s.Takes structs group ∧ ∀ q ∈ group, q ∈ pieces := by
  obtain ⟨groups, rfl, takes⟩ := h
  obtain ⟨group, hgroup, takes⟩ := exists_of_forall₂ takes hs
  exact ⟨group, takes, fun q hq => List.mem_flatten.mpr ⟨group, hgroup, hq⟩⟩

end Grouped

namespace Slot.Takes

variable {s : Slot} {group : List Piece}

theorem stop_eq (h : s.Takes structs group) (fits : s.Fits structs) :
    s.stop = s.offset + s.bytes structs := by
  rw [Slot.stop, h.counted, clampedAdd, clamp_of_le fits]

theorem nonempty (h : s.Takes structs group) (fits : s.Fits structs) : s.offset < s.stop := by
  rw [h.stop_eq fits, Slot.bytes]
  have positive := Nat.mul_pos h.present h.positive
  omega

theorem exists_piece (h : s.Takes structs group) {i : Nat} (hi : i < s.kind.elements) :
    ∃ q ∈ group, q.room = s.element structs i := by
  have member : s.element structs i ∈ group.map (·.room) := by
    rw [h.rooms]
    exact List.mem_map.mpr ⟨i, List.mem_range.mpr hi, rfl⟩
  exact List.mem_map.mp member

theorem exists_element (h : s.Takes structs group) {q : Piece} (hq : q ∈ group) :
    ∃ i < s.kind.elements, q.room = s.element structs i := by
  have member : q.room ∈ group.map (·.room) := List.mem_map_of_mem hq
  rw [h.rooms] at member
  obtain ⟨i, hi, room⟩ := List.mem_map.mp member
  exact ⟨i, List.mem_range.mp hi, room.symm⟩

theorem room_le (h : s.Takes structs group) {q : Piece} (hq : q ∈ group) :
    s.offset ≤ q.room.start ∧ q.room.stop ≤ s.offset + s.bytes structs := by
  obtain ⟨i, hi, room⟩ := h.exists_element hq
  rw [room, Slot.bytes]
  have inside := Nat.mul_le_mul_right (s.kind.elementBytes structs) hi
  rw [Nat.succ_mul] at inside
  simp only [Slot.element]
  omega

/-- The last piece of a slot ends where the slot ends. -/
theorem exists_last (h : s.Takes structs group) :
    ∃ q ∈ group, q.room.stop = s.offset + s.bytes structs := by
  have present := h.present
  obtain ⟨q, hq, room⟩ := h.exists_piece (Nat.sub_lt present Nat.one_pos)
  refine ⟨q, hq, ?_⟩
  have last : (s.kind.elements - 1) * s.kind.elementBytes structs + s.kind.elementBytes structs =
      s.kind.elements * s.kind.elementBytes structs := by
    rw [← Nat.succ_mul, Nat.succ_eq_add_one, Nat.sub_add_cancel present]
  rw [room, Slot.bytes, ← last]
  simp only [Slot.element]
  omega

end Slot.Takes

/-- **Slots end where the pieces they take end.** -/
theorem Grouped.slotsEnd_eq {slots : List Slot} {pieces : List Piece}
    (h : Grouped structs slots pieces) (fits : ∀ s ∈ slots, s.Fits structs) :
    slotsEnd slots = piecesEnd pieces := by
  refine Nat.le_antisymm (slotsEnd_le_iff.mpr fun s hs => ?_) (piecesEnd_le_iff.mpr fun q hq => ?_)
  · obtain ⟨group, takes, inside⟩ := h.exists_group hs
    obtain ⟨q, hq, stop⟩ := takes.exists_last
    rw [takes.stop_eq (fits s hs), ← stop]
    exact stop_le_piecesEnd (inside q hq)
  · obtain ⟨s, hs, group, takes, hq⟩ := h.exists_slot hq
    have bound := stop_le_slotsEnd hs
    rw [takes.stop_eq (fits s hs)] at bound
    exact Nat.le_trans (takes.room_le hq).2 bound

/-! ### Slots of arrays -/

section Arrays

variable {name : String} {offset : Word} {size : Nat} {vector : Option Vector}
variable {kind : Option Nat → SlotKind} {piece : Nat → Piece}

theorem takes_single (positive : 0 < size) (count : (kind none).count = none)
    (bytes : (kind none).elementBytes structs = size) {o : Nat} {q : Piece}
    (room : q.room = ⟨o, o + size⟩) (holds : q.Of structs (kind none)) :
    Slot.Takes structs ⟨o, size, name, kind none⟩ [q] := by
  have one : (kind none).elements = 1 := by
    rw [SlotKind.elements, count, Option.getD_none]
  refine ⟨?_, ?_, bytes ▸ positive, ?_, ?_⟩
  · rw [Slot.bytes, one, bytes, Nat.one_mul]
  · exact one ▸ Nat.one_pos
  · simp [one, room, Slot.element, bytes]
  · intro q' hq'
    rw [List.mem_singleton.mp hq']
    exact holds

/-- **The slots of a node take its pieces**, touching elements in one slot and others in one
slot each.  No offset and no size was clamped, as the slots fit. -/
theorem arraySlots_grouped (positive : 0 < size) (count : ∀ n, (kind n).count = n)
    (bytes : ∀ n, (kind n).elementBytes structs = size)
    (room : ∀ o, (piece o).room = ⟨o, o + size⟩)
    (holds : ∀ n o, (piece o).Of structs (kind n))
    (fits : ∀ s ∈ arraySlots name offset size vector kind, s.Fits structs) :
    Grouped structs (arraySlots name offset size vector kind)
      ((Map.offsets offset vector).map piece) := by
  cases vector with
  | none =>
      refine ⟨[[piece offset.toNat]], rfl, .cons ?_ .nil⟩
      exact takes_single positive (count none) (bytes none) (room _) (holds none _)
  | some v =>
      rw [arraySlots] at fits ⊢
      split at fits
      · next zero =>
        rw [if_pos zero, Map.offsets, zero]
        exact .nil
      · next some =>
        rw [if_neg some]
        have several : 0 < v.count.toNat := by
          refine Nat.pos_of_ne_zero fun zero => some (BitVec.eq_of_toNat_eq ?_)
          simpa using zero
        split at fits
        · next touch =>
          rw [if_pos touch]
          have ends := fits _ List.mem_cons_self
          simp only [Slot.Fits, Slot.bytes, SlotKind.elements, count, bytes,
            Option.getD_some] at ends
          refine ⟨[(Map.offsets offset (Option.some v)).map piece], by simp,
            .cons ⟨?_, ?_, ?_, ?_, ?_⟩ .nil⟩
          · simp only [Slot.bytes, SlotKind.elements, count, bytes, Option.getD_some]
            rw [clampedMul, Nat.mul_comm, clamp_of_le (by omega)]
          · simpa only [SlotKind.elements, count, Option.getD_some] using several
          · simpa only [bytes] using positive
          · simp only [Map.offsets, List.map_map, SlotKind.elements, count, Option.getD_some]
            refine List.map_congr_left fun i _ => ?_
            simp only [Function.comp_apply, room, Slot.element, bytes, touch]
          · intro q hq
            obtain ⟨o, -, rfl⟩ := List.mem_map.mp hq
            exact holds _ o
        · next apart =>
          rw [if_neg apart]
          refine ⟨(List.range v.count.toNat).map fun i =>
            [piece (offset.toNat + i * v.stride.toNat)], ?_, ?_⟩
          · rw [Map.offsets, List.map_map, List.map_eq_flatMap, List.flatMap_def]
            rfl
          · rw [List.forall₂_map_left_iff, List.forall₂_map_right_iff, List.forall₂_same]
            intro i hi
            have ends := fits _ (List.mem_map_of_mem hi)
            simp only [Slot.Fits, Slot.bytes, SlotKind.elements, count, bytes,
              Option.getD_none] at ends
            -- A clamped offset would leave no room for the element.
            have exact_ : Map.elementOffset offset.toNat i v.stride.toNat =
                offset.toNat + i * v.stride.toNat := by
              simp only [Map.elementOffset, clampedAdd, clampedMul, clamp,
                Word.greatest] at ends ⊢
              omega
            rw [exact_]
            exact takes_single positive (count none) (bytes none) (room _) (holds none _)

end Arrays

end ChipMap.Source
