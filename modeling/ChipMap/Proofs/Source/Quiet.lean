import ChipMap.Proofs.Name.Order
import ChipMap.Proofs.Source.Place

/-!
# Structs without a remark

A struct has no remark **exactly when its slots share no byte**, apart from scalar registers of one
place and one storage, which are merged (`disjoint_of_quiet`, `quiet_of_disjoint`).

### What is load-bearing

Only neighbours are merged and only the end of the last member is remembered, so both directions are
said of slots in order first: there, slots that share no byte are those of which each begins where
all before it have ended (`place_quiet_iff`).

Merging is undone from the other side.  If what is left after it follows each other, then any two
slots before it do so too, or they were merged (`pairwise_of_mergeBehind`); slots that follow each
other anyway are not touched by it (`mergeBehind_eq_self`).  Both are inductions along the one pass
over the sorted slots.
-/

namespace ChipMap.Source

/-- The bytes of a slot, up to where it was said to end when it was made. -/
def Slot.span (s : Slot) : Span := ⟨s.offset, s.stop⟩

/-- The storage of a kind of one register.  An array has none, though it may have one element. -/
def SlotKind.scalar? : SlotKind → Option Storage
  | .register _ _ storage _ none => some storage
  | _ => none

/-- **Slots that are merged**: both have one register of one storage at one place. -/
def Slot.Merges (s t : Slot) : Prop :=
  s.offset = t.offset ∧ ∃ storage, s.kind.scalar? = some storage ∧ t.kind.scalar? = some storage

variable {structs : List StructDecl} {slots : List Slot}

/-! ### Merged slots -/

theorem merges_of_absorb? {s t m : Slot} (h : s.absorb? t = some m) : s.Merges t := by
  obtain ⟨offset, _, _, _, _, storage, _, _, kind, kind', -⟩ := Slot.absorb?_inv h
  exact ⟨offset, storage, congrArg SlotKind.scalar? kind, congrArg SlotKind.scalar? kind'⟩

theorem SlotKind.Like.scalar?_eq {a b : SlotKind} (h : a.Like b) : a.scalar? = b.scalar? := by
  cases h with
  | refl => rfl
  | @register _ _ _ _ _ _ _ count =>
      cases count with
      | none => rfl
      | some _ => rfl

/-- What is merged with a slot depends on its place only. -/
theorem Slot.Like.merges {s t x : Slot} (like : s.Like t) (h : s.Merges x) : t.Merges x := by
  obtain ⟨offset, storage, kind, kind'⟩ := h
  exact ⟨like.offset ▸ offset, storage, like.kind.scalar?_eq ▸ kind, kind'⟩

theorem Slot.Merges.trans {s t x : Slot} (h : s.Merges t) (h' : s.Merges x) : t.Merges x := by
  obtain ⟨offset, storage, kind, kind'⟩ := h
  obtain ⟨offset', storage', same, kind''⟩ := h'
  obtain rfl := Option.some.inj (kind.symm.trans same)
  exact ⟨offset.symm.trans offset', storage, kind', kind''⟩

theorem Slot.Merges.symm {s t : Slot} (h : s.Merges t) : t.Merges s := by
  obtain ⟨offset, storage, kind, kind'⟩ := h
  exact ⟨offset.symm, storage, kind', kind⟩

theorem Slot.Merges.stop_eq {s t : Slot} (h : s.Merges t) (size : s.size = s.bytes structs)
    (size' : t.size = t.bytes structs) : s.stop = t.stop := by
  obtain ⟨offset, storage, kind, kind'⟩ := h
  have one {s : Slot} (kind : s.kind.scalar? = some storage) : s.bytes structs = storage.bytes := by
    rw [Slot.bytes]
    cases found : s.kind with
    | register _ _ _ _ count =>
        rw [found] at kind
        cases count with
        | none =>
            obtain rfl := Option.some.inj kind
            exact Nat.one_mul _
        | some _ => cases kind
    | block =>
        rw [found] at kind
        cases kind
  rw [Slot.stop, Slot.stop, offset, size, size', one kind, one kind']

theorem exists_offset_of_mem {last s : Slot} (h : s ∈ last :: slots) :
    ∃ x ∈ mergeBehind last slots, x.offset = s.offset := by
  induction slots generalizing last s with
  | nil => exact ⟨s, h, rfl⟩
  | cons next rest ih =>
      rw [mergeBehind]
      cases merged : last.absorb? next with
      | some m =>
          have like := like_of_absorb? merged
          rcases List.mem_cons.mp h with rfl | h
          · obtain ⟨x, hx, same⟩ := ih (List.mem_cons_self (a := m))
            exact ⟨x, hx, same.trans like.offset⟩
          · rcases List.mem_cons.mp h with rfl | h
            · obtain ⟨x, hx, same⟩ := ih (List.mem_cons_self (a := m))
              exact ⟨x, hx, same.trans (like.offset.trans (merges_of_absorb? merged).1)⟩
            · exact ih (List.mem_cons_of_mem _ h)
      | none =>
          rcases List.mem_cons.mp h with rfl | h
          · exact ⟨s, List.mem_cons_self, rfl⟩
          · obtain ⟨x, hx, same⟩ := ih h
            exact ⟨x, List.mem_cons_of_mem _ hx, same⟩

/-- A slot of a struct is not merged. -/
theorem mem_mergeBehind_of_scalar? {last s : Slot} (h : s ∈ last :: slots)
    (kind : s.kind.scalar? = none) : s ∈ mergeBehind last slots := by
  induction slots generalizing last s with
  | nil => exact h
  | cons next rest ih =>
      rw [mergeBehind]
      cases merged : last.absorb? next with
      | some m =>
          obtain ⟨-, storage, first, second⟩ := merges_of_absorb? merged
          rcases List.mem_cons.mp h with rfl | h
          · cases kind.symm.trans first
          · rcases List.mem_cons.mp h with rfl | h
            · cases kind.symm.trans second
            · exact ih (List.mem_cons_of_mem _ h) kind
      | none =>
          rcases List.mem_cons.mp h with rfl | h
          · exact List.mem_cons_self
          · exact List.mem_cons_of_mem _ (ih h kind)

/-- **Slots that follow each other once they are merged** follow each other or are merged. -/
theorem pairwise_of_mergeBehind {last : Slot}
    (sizes : ∀ s ∈ last :: slots, s.size = s.bytes structs)
    (h : (mergeBehind last slots).Pairwise fun s t => s.stop ≤ t.offset) :
    (last :: slots).Pairwise fun s t => s.stop ≤ t.offset ∨ s.Merges t := by
  induction slots generalizing last with
  | nil => exact List.pairwise_singleton _ _
  | cons next rest ih =>
      rw [mergeBehind] at h
      cases merged : last.absorb? next with
      | some m =>
          rw [merged] at h
          have like := like_of_absorb? merged
          have own := merges_of_absorb? merged
          have sameStop := own.stop_eq (sizes last List.mem_cons_self)
            (sizes next (List.mem_cons_of_mem _ List.mem_cons_self))
          have later := List.pairwise_cons.mp (@ih m ?_ h)
          · refine List.pairwise_cons.mpr ⟨?_, List.pairwise_cons.mpr ⟨?_, later.2⟩⟩
            · -- Both slots end where the merged one does, so what comes behind it comes behind
              -- both.
              intro t ht
              rcases List.mem_cons.mp ht with rfl | ht
              · exact .inr own
              · exact (later.1 t ht).imp (like.stop_eq ▸ ·) like.merges
            · intro t ht
              refine (later.1 t ht).imp (fun h => ?_) fun h => own.trans (like.merges h)
              rw [← sameStop, ← like.stop_eq]
              exact h
          · intro s hs
            rcases List.mem_cons.mp hs with rfl | hs
            · rw [like.size, like.bytes_eq, sizes last List.mem_cons_self]
            · exact sizes s (List.mem_cons_of_mem _ (List.mem_cons_of_mem _ hs))
      | none =>
          rw [merged] at h
          obtain ⟨first, later⟩ := List.pairwise_cons.mp h
          refine List.pairwise_cons.mpr ⟨fun t ht => .inl ?_, ?_⟩
          · obtain ⟨x, hx, same⟩ := exists_offset_of_mem ht
            exact same ▸ first x hx
          · exact ih (fun s hs => sizes s (List.mem_cons_of_mem _ hs)) later

/-- Slots of which each begins where all before it have ended are not merged. -/
theorem mergeBehind_eq_self {last : Slot} (nonempty : ∀ s ∈ last :: slots, s.offset < s.stop)
    (h : (last :: slots).Pairwise fun s t => s.stop ≤ t.offset) :
    mergeBehind last slots = last :: slots := by
  induction slots generalizing last with
  | nil => rfl
  | cons next rest ih =>
      obtain ⟨first, later⟩ := List.pairwise_cons.mp h
      have here := nonempty last List.mem_cons_self
      have behind := first next List.mem_cons_self
      rw [mergeBehind]
      cases merged : last.absorb? next with
      | some m =>
          have same := (merges_of_absorb? merged).1
          omega
      | none => rw [ih (fun s hs => nonempty s (List.mem_cons_of_mem _ hs)) later]

theorem mergeSlots_eq_self (nonempty : ∀ s ∈ slots, s.offset < s.stop)
    (h : slots.Pairwise fun s t => s.stop ≤ t.offset) : mergeSlots slots = slots := by
  cases slots with
  | nil => rfl
  | cons first rest => exact mergeBehind_eq_self nonempty h

theorem pairwise_of_mergeSlots (sizes : ∀ s ∈ slots, s.size = s.bytes structs)
    (h : (mergeSlots slots).Pairwise fun s t => s.stop ≤ t.offset) :
    slots.Pairwise fun s t => s.stop ≤ t.offset ∨ s.Merges t := by
  cases slots with
  | nil => exact .nil
  | cons first rest => exact pairwise_of_mergeBehind sizes h

theorem mem_mergeSlots_of_scalar? {s : Slot} (h : s ∈ slots) (kind : s.kind.scalar? = none) :
    s ∈ mergeSlots slots := by
  cases slots with
  | nil => exact h
  | cons first rest => exact mem_mergeBehind_of_scalar? h kind

/-! ### Placed slots -/

/-- **Nothing is remarked on** exactly when each slot begins where all before it have ended. -/
theorem place_quiet_iff (ordered : ∀ s ∈ slots, s.offset ≤ s.stop) {next number : Nat} :
    (∀ s, .remark s ∉ (place next number slots).1) ↔
      (∀ s ∈ slots, next ≤ s.offset) ∧ slots.Pairwise fun s t => s.stop ≤ t.offset := by
  induction slots generalizing next number with
  | nil => simp [place]
  | cons s rest ih =>
      have ends := ordered s List.mem_cons_self
      have later {number : Nat} :=
        @ih (fun t ht => ordered t (List.mem_cons_of_mem _ ht)) s.stop number
      rw [place, List.pairwise_cons, List.forall_mem_cons]
      split
      · next taken =>
        constructor
        · exact fun quiet => absurd List.mem_cons_self (quiet s)
        · rintro ⟨⟨free, -⟩, -⟩
          omega
      · next free =>
        -- The reservation before a member is no remark.
        have placed : (∀ t, .remark t ∉ (if next < s.offset
            then (Entry.reserved next number :: .field s :: (place s.stop (number + 1) rest).1,
              (place s.stop (number + 1) rest).2)
            else (.field s :: (place s.stop number rest).1, (place s.stop number rest).2)).1) ↔
              (∀ t ∈ rest, s.stop ≤ t.offset) ∧ rest.Pairwise fun s t => s.stop ≤ t.offset := by
          split
          · simpa using later
          · simpa using later
        refine placed.trans ⟨?_, ?_⟩
        · rintro ⟨after, apart⟩
          refine ⟨⟨Nat.le_of_not_lt free, fun t ht => ?_⟩, after, apart⟩
          have := after t ht
          omega
        · rintro ⟨-, after, apart⟩
          exact ⟨after, apart⟩

theorem field_or_remark {s : Slot} {next number : Nat} (h : s ∈ slots) :
    .field s ∈ (place next number slots).1 ∨ .remark s ∈ (place next number slots).1 := by
  induction slots generalizing next number with
  | nil => cases h
  | cons t rest ih =>
      rw [place]
      split
      · rcases List.mem_cons.mp h with rfl | h
        · exact .inr List.mem_cons_self
        · exact (ih h).imp (List.mem_cons_of_mem _) (List.mem_cons_of_mem _)
      · split
        · rcases List.mem_cons.mp h with rfl | h
          · exact .inl (List.mem_cons_of_mem _ List.mem_cons_self)
          · exact (ih h).imp (fun h => List.mem_cons_of_mem _ (List.mem_cons_of_mem _ h))
              fun h => List.mem_cons_of_mem _ (List.mem_cons_of_mem _ h)
        · rcases List.mem_cons.mp h with rfl | h
          · exact .inl List.mem_cons_self
          · exact (ih h).imp (List.mem_cons_of_mem _) (List.mem_cons_of_mem _)

/-! ### Structs -/

/-- The slots of a struct in the order of their offsets. -/
theorem sortSlots_pairwise (slots : List Slot) :
    (sortSlots slots).Pairwise fun s t => s.offset ≤ t.offset := by
  refine (Name.sortOn_pairwise Name.textLe_totalOrder.lexLe).imp fun {s t} h => ?_
  rcases Name.lexLe_iff.mp h with h | h
  · exact Nat.le_of_lt h
  · exact Nat.le_of_eq h.1

section Blocks

variable {b : Block} (nonempty : ∀ s ∈ b.slots, s.offset < s.stop)

include nonempty

/-- **Slots that share no byte are all members**, and nothing is remarked on. -/
theorem quiet_of_disjoint (apart : b.slots.Pairwise fun s t => ¬s.span.Meets t.span) :
    Quiet b.declaration ∧ ∀ s ∈ b.slots, .field s ∈ b.declaration.entries := by
  have perm : (sortSlots b.slots).Perm b.slots := Name.sortOn_perm _ _ _
  have nonempty : ∀ s ∈ sortSlots b.slots, s.offset < s.stop :=
    fun s hs => nonempty s (perm.mem_iff.mp hs)
  have apart := (perm.pairwise_iff fun h meets => h meets.symm).mpr apart
  have chronological : (sortSlots b.slots).Pairwise fun s t => s.stop ≤ t.offset := by
    refine ((sortSlots_pairwise b.slots).and apart).imp_of_mem fun {s t} hs ht h => ?_
    have first := nonempty s hs
    have second := nonempty t ht
    by_contra shared
    exact h.2 (Span.meets_iff.mpr ⟨Nat.lt_of_le_of_lt h.1 second, Nat.lt_of_not_le shared, first,
      second⟩)
  have ordered : ∀ s ∈ sortSlots b.slots, s.offset ≤ s.stop :=
    fun s hs => Nat.le_of_lt (nonempty s hs)
  have placed := (@place_quiet_iff _ ordered 0 0).mpr
    ⟨fun s _ => Nat.zero_le s.offset, chronological⟩
  rw [← mergeSlots_eq_self nonempty chronological] at placed
  refine ⟨fun s h => placed s (remark_mem_iff.mp h), fun s hs => ?_⟩
  have member : s ∈ mergeSlots (sortSlots b.slots) := by
    rw [mergeSlots_eq_self nonempty chronological]
    exact perm.mem_iff.mpr hs
  rw [field_mem_iff]
  exact (field_or_remark member).resolve_right (placed s)

/-- **Slots of a struct without a remark** share a byte only if they are merged, and those of
structs are members. -/
theorem disjoint_of_quiet (sizes : ∀ s ∈ b.slots, s.size = s.bytes structs)
    (quiet : Quiet b.declaration) :
    (b.slots.Pairwise fun s t => s.span.Meets t.span → s.Merges t) ∧
      ∀ s ∈ b.slots, s.kind.scalar? = none → .field s ∈ b.declaration.entries := by
  have perm : (sortSlots b.slots).Perm b.slots := Name.sortOn_perm _ _ _
  have placed : ∀ s, .remark s ∉ (place 0 0 (mergeSlots (sortSlots b.slots))).1 :=
    fun s h => quiet s (remark_mem_iff.mpr h)
  have ordered : ∀ x ∈ mergeSlots (sortSlots b.slots), x.offset ≤ x.stop := by
    intro x hx
    obtain ⟨s, hs, like⟩ := exists_like_of_mem_merged hx
    rw [like.offset, like.stop_eq]
    exact Nat.le_of_lt (nonempty s hs)
  have chronological := ((place_quiet_iff ordered).mp placed).2
  refine ⟨(perm.pairwise_iff fun h meets => (h meets.symm).symm).mp ?_, fun s hs kind => ?_⟩
  · refine (pairwise_of_mergeSlots (fun s hs => sizes s (perm.mem_iff.mp hs)) chronological).imp ?_
    rintro s t (before | merges) meets
    · exact absurd (Span.meets_iff.mp meets).2.1 (Nat.not_lt.mpr before)
    · exact merges
  · rw [field_mem_iff]
    have member := mem_mergeSlots_of_scalar? (perm.mem_iff.mpr hs) kind
    exact (field_or_remark member).resolve_right (placed s)

end Blocks

end ChipMap.Source
