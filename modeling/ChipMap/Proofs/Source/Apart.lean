import ChipMap.Proofs.Source.Quiet
import ChipMap.Proofs.Source.Takes

/-!
# Slots share bytes where pieces do

A level is seen in two ways: as slots, which are what a struct is made of, and as pieces, which are
single elements of the map with the room that their members take.  The pieces of a slot are its
bytes and no others (`Slot.Takes.exists_contains`), and they share none among each other
(`Slot.Takes.disjoint`).  So what is known of the bytes of slots passes to pieces and back: **slots
share no byte when pieces do not** (`Grouped.slots_disjoint`), and **pieces that share a byte are in
slots that do** (`Grouped.pieces_shared`).

### What is load-bearing

An array is one slot and many pieces, or a slot for each.  That nothing lies between the elements of
one slot is what makes the two ways agree, and it holds only while the slot fits: the end of a slot
beyond the greatest word would be cut off, and the last pieces would be outside it.
-/

namespace ChipMap.Source

variable {structs : List StructDecl}

namespace Slot.Takes

variable {s : Slot} {group : List Piece}

/-- Each byte of a slot is one of a piece. -/
theorem exists_contains (h : s.Takes structs group) (fits : s.Fits structs) {x : Nat}
    (inside : s.span.Contains x) : ∃ q ∈ group, q.room.Contains x := by
  obtain ⟨start, stop⟩ := inside
  simp only [Slot.span, h.stop_eq fits, Slot.bytes] at start stop
  have element : (x - s.offset) / s.kind.elementBytes structs < s.kind.elements := by
    rw [Nat.div_lt_iff_lt_mul h.positive]
    omega
  obtain ⟨q, hq, room⟩ := h.exists_piece element
  have parts := Nat.div_add_mod' (x - s.offset) (s.kind.elementBytes structs)
  have rest := Nat.mod_lt (x - s.offset) h.positive
  refine ⟨q, hq, ?_⟩
  rw [room]
  constructor
  · simp only [Slot.element]
    omega
  · simp only [Slot.element]
    omega

theorem contains (h : s.Takes structs group) (fits : s.Fits structs) {q : Piece} (hq : q ∈ group)
    {x : Nat} (inside : q.room.Contains x) : s.span.Contains x := by
  obtain ⟨start, stop⟩ := h.room_le hq
  rw [← h.stop_eq fits] at stop
  exact ⟨Nat.le_trans start inside.1, Nat.lt_of_lt_of_le inside.2 stop⟩

theorem disjoint (h : s.Takes structs group) : group.Pairwise fun a b => ¬a.room.Meets b.room := by
  have rooms : (group.map (·.room)).Pairwise fun a b => ¬a.Meets b := by
    rw [h.rooms, List.pairwise_map]
    refine List.pairwise_lt_range.imp fun {i j} less meets => ?_
    have before := Nat.mul_le_mul_right (s.kind.elementBytes structs) less
    have shared := (Span.meets_iff.mp meets).2.1
    simp only [Slot.element, Nat.succ_mul] at before shared
    omega
  exact List.pairwise_map.mp rooms

/-- The piece of a slot that can be merged is a register, as only single registers are merged. -/
theorem exists_register (h : s.Takes structs group) {storage : Storage}
    (kind : s.kind.scalar? = some storage) {q : Piece} (hq : q ∈ group) :
    ∃ r, q.node = .register r ∧ q.offset = s.offset := by
  obtain ⟨i, hi, room⟩ := h.exists_element hq
  have of := h.holds q hq
  have start : q.offset = s.offset + i * s.kind.elementBytes structs := congrArg Span.start room
  generalize s.kind = k at kind hi of start
  cases k with
  | register _ _ _ _ count =>
      cases count with
      | none =>
          obtain ⟨r, node, -⟩ := of
          obtain rfl : i = 0 := Nat.lt_one_iff.mp hi
          exact ⟨r, node, by rw [start, Nat.zero_mul, Nat.add_zero]⟩
      | some _ => cases kind
  | block => cases kind

end Slot.Takes

namespace Grouped

variable {slots : List Slot} {pieces : List Piece}

/-- **Slots share no byte when their pieces do not.** -/
theorem slots_disjoint (h : Grouped structs slots pieces) (fits : ∀ s ∈ slots, s.Fits structs)
    (apart : pieces.Pairwise fun a b => ¬a.room.Meets b.room) :
    slots.Pairwise fun s t => ¬s.span.Meets t.span := by
  obtain ⟨groups, rfl, takes⟩ := h
  refine pairwise_of_forall₂ takes (List.pairwise_flatten.mp apart).2 ?_
  intro s hs t ht group _ group' _ own own' apart ⟨x, inside, inside'⟩
  obtain ⟨a, ha, inside⟩ := own.exists_contains (fits s hs) inside
  obtain ⟨b, hb, inside'⟩ := own'.exists_contains (fits t ht) inside'
  exact apart a ha b hb ⟨x, inside, inside'⟩

/-- **Pieces that share a byte are registers of one place** when slots that do are merged. -/
theorem pieces_shared (h : Grouped structs slots pieces) (fits : ∀ s ∈ slots, s.Fits structs)
    (shared : slots.Pairwise fun s t => s.span.Meets t.span → s.Merges t) :
    pieces.Pairwise fun a b => a.room.Meets b.room →
      ∃ r r', a.node = .register r ∧ b.node = .register r' ∧ a.offset = b.offset := by
  obtain ⟨groups, rfl, takes⟩ := h
  refine List.pairwise_flatten.mpr ⟨fun group hgroup => ?_, ?_⟩
  · obtain ⟨s, -, own⟩ := exists_of_forall₂ takes.flip hgroup
    exact own.disjoint.imp fun apart meets => absurd meets apart
  · refine pairwise_of_forall₂ takes.flip shared ?_
    intro group _ group' _ s hs t ht own own' shared a ha b hb ⟨x, inside, inside'⟩
    obtain ⟨place, storage, kind, kind'⟩ :=
      shared ⟨x, own.contains (fits s hs) ha inside, own'.contains (fits t ht) hb inside'⟩
    obtain ⟨r, node, start⟩ := own.exists_register kind ha
    obtain ⟨r', node', start'⟩ := own'.exists_register kind' hb
    exact ⟨r, r', node, node', start.trans (place.trans start'.symm)⟩

end Grouped

end ChipMap.Source
