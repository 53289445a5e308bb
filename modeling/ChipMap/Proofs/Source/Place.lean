import ChipMap.Proofs.Source.Layout

/-!
# From slots to entries

A struct is made from its slots in three steps: they are sorted, those that share a place are
merged, and the rest is placed.  **Every field comes from a slot of the same place** (`Slot.Like`),
and the fields follow each other (`place_tiles`).

### What is load-bearing

A merged slot differs from the slots it was made of in what may be done to it and in the type of its
fields only, so nothing that is said of places tells it from the first of them.

Placing goes through the slots once, with the end of the last member.  A slot that begins before
that end is left out with a remark, and a gap is filled by a reservation; the three cases are those
of `Tiles`, and the invariant is that the entries so far end where the next slot may begin.
-/

namespace ChipMap.Source

/-! ### Slots of one place -/

/-- Kinds that take the same bytes and hold the same registers. -/
inductive SlotKind.Like : SlotKind → SlotKind → Prop
  | refl {k : SlotKind} : Like k k
  | register {r w r' w' : Bool} {storage : Storage} {b b' : Option String} {count : Option Nat} :
    Like (.register r w storage b count) (.register r' w' storage b' count)

/-- Slots of the same place that hold the same registers. -/
structure Slot.Like (s t : Slot) : Prop where
  offset : s.offset = t.offset
  size : s.size = t.size
  kind : s.kind.Like t.kind

theorem SlotKind.Like.trans {a b c : SlotKind} (h : a.Like b) (h' : b.Like c) : a.Like c := by
  cases h with
  | refl => exact h'
  | register =>
      cases h' with
      | refl => exact .register
      | register => exact .register

theorem SlotKind.Like.elements_eq {a b : SlotKind} (h : a.Like b) : a.elements = b.elements := by
  cases h with
  | refl => rfl
  | register => rfl

theorem SlotKind.Like.elementBytes_eq {a b : SlotKind} (h : a.Like b)
    (structs : List StructDecl) : a.elementBytes structs = b.elementBytes structs := by
  cases h with
  | refl => rfl
  | register => rfl

namespace Slot.Like

theorem refl (s : Slot) : s.Like s := ⟨rfl, rfl, .refl⟩

theorem trans {a b c : Slot} (h : a.Like b) (h' : b.Like c) : a.Like c :=
  ⟨h.offset.trans h'.offset, h.size.trans h'.size, h.kind.trans h'.kind⟩

theorem stop_eq {s t : Slot} (h : s.Like t) : s.stop = t.stop := by
  rw [Slot.stop, Slot.stop, h.offset, h.size]

theorem bytes_eq {s t : Slot} (h : s.Like t) (structs : List StructDecl) :
    s.bytes structs = t.bytes structs := by
  rw [Slot.bytes, Slot.bytes, h.kind.elements_eq, h.kind.elementBytes_eq]

end Slot.Like

/-- **Two slots that make one**: both have one register of one storage at one place, and only what
may be done to the register of the first one changes. -/
theorem Slot.absorb?_inv {s t m : Slot} (h : s.absorb? t = some m) :
    s.offset = t.offset ∧ ∃ r w r' w' storage bitfield bitfield',
      s.kind = .register r w storage bitfield none ∧
      t.kind = .register r' w' storage bitfield' none ∧
      m = { s with kind := .register (r || r') (w || w') storage bitfield none } := by
  unfold Slot.absorb? at h
  split at h
  · next kind kind' =>
    split at h
    · next same =>
      obtain ⟨offset, rfl⟩ := same
      exact ⟨offset, _, _, _, _, _, _, _, kind, kind', (Option.some.inj h).symm⟩
    · cases h
  · cases h

theorem name_of_absorb? {s t m : Slot} (h : s.absorb? t = some m) : m.name = s.name := by
  obtain ⟨-, _, _, _, _, _, _, _, -, -, rfl⟩ := Slot.absorb?_inv h
  rfl

/-- A slot with another one folded in keeps its place. -/
theorem like_of_absorb? {s t m : Slot} (h : s.absorb? t = some m) : m.Like s := by
  obtain ⟨-, _, _, _, _, _, _, _, kind, -, rfl⟩ := Slot.absorb?_inv h
  refine ⟨rfl, rfl, ?_⟩
  rw [kind]
  exact .register

section Merged

variable {P : Slot → Prop} (absorb : ∀ {s t m : Slot}, s.absorb? t = some m → P s → P m)

include absorb

theorem forall_mem_mergeBehind {last : Slot} {slots : List Slot} (h : ∀ s ∈ last :: slots, P s) :
    ∀ s ∈ mergeBehind last slots, P s := by
  induction slots generalizing last with
  | nil => exact h
  | cons s rest ih =>
      obtain ⟨first, behind⟩ := List.forall_mem_cons.mp h
      rw [mergeBehind]
      cases merged : last.absorb? s with
      | some m =>
          refine ih (List.forall_mem_cons.mpr ⟨absorb merged first, ?_⟩)
          exact fun t ht => behind t (List.mem_cons_of_mem _ ht)
      | none => exact List.forall_mem_cons.mpr ⟨first, ih behind⟩

/-- **What the slots of a struct have, those that are placed have**, when it stays while slots are
folded in. -/
theorem forall_mem_merged {slots : List Slot} (h : ∀ s ∈ slots, P s) :
    ∀ s ∈ mergeSlots (sortSlots slots), P s := by
  have sorted : ∀ s ∈ sortSlots slots, P s :=
    fun s hs => h s ((Name.sortOn_perm _ _ slots).mem_iff.mp hs)
  cases slots : sortSlots slots with
  | nil => exact fun _ h => nomatch h
  | cons first rest => exact forall_mem_mergeBehind absorb (slots ▸ sorted)

end Merged

/-- **Each slot that is placed is like one of the struct.** -/
theorem exists_like_of_mem_merged {x : Slot} {slots : List Slot}
    (h : x ∈ mergeSlots (sortSlots slots)) : ∃ s ∈ slots, x.Like s := by
  refine forall_mem_merged (P := fun x => ∃ s ∈ slots, x.Like s) ?_ (fun s hs => ?_) x h
  · rintro s t m merged ⟨source, listed, like⟩
    exact ⟨source, listed, (like_of_absorb? merged).trans like⟩
  · exact ⟨s, hs, .refl s⟩

/-! ### Placed slots -/

/-- What an entry is about is one of the slots.  A reservation is about none. -/
theorem mem_of_mem_place {e : Entry} {s : Slot} (about : e = .field s ∨ e = .remark s)
    {slots : List Slot} : ∀ {next number : Nat}, e ∈ (place next number slots).1 → s ∈ slots := by
  induction slots with
  | nil =>
      intro next number h
      cases h
  | cons t rest ih =>
      intro next number h
      rw [place] at h
      -- The first entry is about the first slot, and a reservation is about none.
      have first : e = .field t ∨ e = .remark t → s = t := by
        rintro (rfl | rfl)
        · rcases about with h | h <;> cases h; rfl
        · rcases about with h | h <;> cases h; rfl
      split at h
      · rcases List.mem_cons.mp h with h | h
        · exact first (.inr h) ▸ List.mem_cons_self
        · exact List.mem_cons_of_mem _ (ih h)
      · split at h
        · rcases List.mem_cons.mp h with h | h
          · rcases about with rfl | rfl <;> cases h
          · rcases List.mem_cons.mp h with h | h
            · exact first (.inl h) ▸ List.mem_cons_self
            · exact List.mem_cons_of_mem _ (ih h)
        · rcases List.mem_cons.mp h with h | h
          · exact first (.inl h) ▸ List.mem_cons_self
          · exact List.mem_cons_of_mem _ (ih h)

theorem mem_of_field {s : Slot} {slots : List Slot} {next number : Nat}
    (h : .field s ∈ (place next number slots).1) : s ∈ slots :=
  mem_of_mem_place (.inl rfl) h

/-- The last member ends no later than the slots do. -/
theorem place_stop_le {bound : Nat} {slots : List Slot} (h : ∀ s ∈ slots, s.stop ≤ bound) :
    ∀ {next number : Nat}, next ≤ bound → (place next number slots).2.1 ≤ bound := by
  induction slots with
  | nil =>
      intro next number hnext
      exact hnext
  | cons s rest ih =>
      intro next number hnext
      have later := @ih fun t ht => h t (List.mem_cons_of_mem _ ht)
      rw [place]
      split
      · exact later hnext
      · split
        · exact later (h s List.mem_cons_self)
        · exact later (h s List.mem_cons_self)

/-- **Placed slots follow each other** when each of them ends where its bytes do, by induction
on the slots. -/
theorem place_tiles {structs : List StructDecl} {slots : List Slot}
    (h : ∀ s ∈ slots, s.stop = s.offset + s.bytes structs) : ∀ next number : Nat,
      Tiles structs next (place next number slots).1 (place next number slots).2.1 := by
  induction slots with
  | nil =>
      intro next number
      exact .nil
  | cons s rest ih =>
      intro next number
      have later := ih fun t ht => h t (List.mem_cons_of_mem _ ht)
      have ends := h s List.mem_cons_self
      rw [place]
      split
      · exact .remark (later next number)
      · next free =>
        split
        · next gap => exact .reserved gap (.field (ends ▸ later s.stop (number + 1)))
        · next touch =>
          obtain rfl : s.offset = next := by omega
          exact .field (ends ▸ later s.stop number)

theorem Tiles.append_reserved {structs : List StructDecl} {start stop last number : Nat}
    {entries : List Entry} (h : Tiles structs start entries stop) (more : stop < last) :
    Tiles structs start (entries ++ [.reserved stop number]) last := by
  induction h with
  | nil => exact .reserved more .nil
  | field _ ih => exact .field (ih more)
  | reserved gap _ ih => exact .reserved gap (ih more)
  | remark _ ih => exact .remark (ih more)

variable {structs : List StructDecl}

/-! ### Structs -/

/-- The end of some slots is a bound exactly when each of them ends before it. -/
theorem slotsEnd_le_iff {slots : List Slot} {bound : Nat} :
    slotsEnd slots ≤ bound ↔ ∀ s ∈ slots, s.stop ≤ bound := by
  have from_ (start : Nat) : (slots.map Slot.stop).foldl max start ≤ bound ↔
      start ≤ bound ∧ ∀ s ∈ slots, s.stop ≤ bound := by
    induction slots generalizing start with
    | nil => simp
    | cons s rest ih =>
        rw [List.map_cons, List.foldl_cons, ih, Nat.max_le, List.forall_mem_cons, and_assoc]
  rw [slotsEnd, from_]
  simp

theorem stop_le_slotsEnd {slots : List Slot} {s : Slot} (h : s ∈ slots) :
    s.stop ≤ slotsEnd slots := slotsEnd_le_iff.mp (Nat.le_refl _) s h

/-- **A struct has the size that its slots were given**: it is not shorter than its last
slot. -/
theorem declaration_stop {b : Block} (h : slotsEnd b.slots ≤ b.size) :
    b.declaration.stop = b.size := by
  have bound : ∀ s ∈ mergeSlots (sortSlots b.slots), s.stop ≤ b.size := by
    intro x hx
    obtain ⟨s, hs, like⟩ := exists_like_of_mem_merged hx
    rw [like.stop_eq]
    exact Nat.le_trans (stop_le_slotsEnd hs) h
  have last := @place_stop_le b.size _ bound 0 0 (Nat.zero_le _)
  unfold Block.declaration
  dsimp only
  split
  · rfl
  · exact Nat.le_antisymm last (Nat.le_of_not_lt ‹_›)

theorem declaration_name (b : Block) : b.declaration.name = b.name := by
  unfold Block.declaration
  dsimp only
  split
  · rfl
  · rfl

/-- The entries of a struct are those of its slots, and a reservation. -/
theorem mem_entries_iff {b : Block} {e : Entry}
    (member : ∀ offset number, e ≠ .reserved offset number) :
    e ∈ b.declaration.entries ↔ e ∈ (place 0 0 (mergeSlots (sortSlots b.slots))).1 := by
  unfold Block.declaration
  dsimp only
  split
  · simp [member]
  · rfl

theorem field_mem_iff {b : Block} {s : Slot} : .field s ∈ b.declaration.entries ↔
    .field s ∈ (place 0 0 (mergeSlots (sortSlots b.slots))).1 :=
  mem_entries_iff (e := .field s) fun _ _ h => nomatch h

theorem remark_mem_iff {b : Block} {s : Slot} : .remark s ∈ b.declaration.entries ↔
    .remark s ∈ (place 0 0 (mergeSlots (sortSlots b.slots))).1 :=
  mem_entries_iff (e := .remark s) fun _ _ h => nomatch h

theorem exists_like_of_field {b : Block} {s : Slot} (h : .field s ∈ b.declaration.entries) :
    ∃ t ∈ b.slots, s.Like t :=
  exists_like_of_mem_merged (mem_of_field (field_mem_iff.mp h))

/-- **The entries of a struct follow each other** when each slot ends where its bytes do. -/
theorem declaration_tiles {b : Block} (h : ∀ s ∈ b.slots, s.stop = s.offset + s.bytes structs) :
    Tiles structs 0 b.declaration.entries b.declaration.stop := by
  have placed := @place_tiles structs (mergeSlots (sortSlots b.slots)) (by
    intro x hx
    obtain ⟨s, hs, like⟩ := exists_like_of_mem_merged hx
    rw [like.stop_eq, like.offset, like.bytes_eq, h s hs]) 0 0
  unfold Block.declaration
  dsimp only
  split
  · next more => exact placed.append_reserved more
  · exact placed

section Named

variable (names : (structs.map (·.name)).Nodup)

include names

/-- A name leads to the struct it is the name of. -/
theorem structBytes_eq {d : StructDecl} (h : d ∈ structs) : structBytes structs d.name = d.stop := by
  have found : structs.find? (fun e => e.name == d.name) = some d := by
    cases found : structs.find? fun e => e.name == d.name with
    | none => exact absurd (List.find?_eq_none.mp found d h) (by simp)
    | some e =>
        have same : e.name = d.name := by simpa using List.find?_some found
        rw [List.inj_on_of_nodup_map names (List.mem_of_find?_eq_some found) h same]
  rw [structBytes, found, Option.map_some, Option.getD_some]

end Named

end ChipMap.Source
