import ChipMap.Proofs.Map.OfText
import ChipMap.Proofs.Source.Quiet
import ChipMap.Proofs.Source.Types

/-!
# Registers that share a place

Scalar registers of one offset and one storage are merged into one member.  Only neighbours in the
order of offsets and names are compared, so **a member takes a run of neighbours**: it may be read
if one of the run may be read (`Stretch.mem_run_iff`, `Block.access_iff`).

A member takes *all* registers of its place and storage **exactly when no other slot of the place
stands between one of them and the member by name** (`Block.takesAll_iff`).  An array, a struct or a
register of another storage that does stand between them cuts the run: behind it a second member of
the same place begins, and that one is left out with a remark (`shapePeripheral_not_takesAll`).

### What is load-bearing

The slots of a struct have distinct names, so their order is strict (`sortSlots_strict`), and what a
run leaves out on either side is parted from it by the neighbour that ended it.

Merging keeps one slot open and folds the next ones into it.  The induction therefore runs with the
slots that are already in the open one (`mergeBehind_runs`), and a run is finished when a slot is
refused.
-/

namespace ChipMap.Source

open Map (Cluster Peripheral Register)

/-! ### Runs of slots -/

/-- Whether a kind of register may be read. -/
def SlotKind.isReadable : SlotKind → Bool
  | .register readable _ _ _ _ => readable
  | .block _ _ => false

/-- Whether a kind of register may be written. -/
def SlotKind.isWritable : SlotKind → Bool
  | .register _ writable _ _ _ => writable
  | .block _ _ => false

/-- **A slot that is made of a run**: it has the name of the first slot, the place and the storage
of all, and may be read or written if one of them may be. -/
structure Slot.Gathers (x : Slot) (run : List Slot) : Prop where
  named : ∃ first rest, run = first :: rest ∧ first.name = x.name
  alike : ∀ s ∈ run, s.offset = x.offset ∧ s.kind.scalar? = x.kind.scalar?
  readable : x.kind.isReadable = run.any (·.kind.isReadable)
  writable : x.kind.isWritable = run.any (·.kind.isWritable)

/-- **Slots cut into runs**, with a slot made of each; no run goes on in the next one. -/
inductive Runs : List Slot → List Slot → Prop
  | nil : Runs [] []
  | cons {x : Slot} {run slots merged : List Slot} :
    x.Gathers run → (∀ t ∈ slots.head?, ¬x.Merges t) → Runs slots merged →
      Runs (run ++ slots) (x :: merged)

theorem Slot.Gathers.single (s : Slot) : s.Gathers [s] where
  named := ⟨s, [], rfl, rfl⟩
  alike t ht := by
    obtain rfl := List.mem_singleton.mp ht
    exact ⟨rfl, rfl⟩
  readable := by simp
  writable := by simp

/-- What is folded in adds what may be done to it. -/
theorem access_of_absorb? {s t m : Slot} (h : s.absorb? t = some m) :
    m.kind.isReadable = (s.kind.isReadable || t.kind.isReadable) ∧
      m.kind.isWritable = (s.kind.isWritable || t.kind.isWritable) := by
  obtain ⟨-, _, _, _, _, _, _, _, kind, kind', rfl⟩ := Slot.absorb?_inv h
  rw [kind, kind']
  exact ⟨rfl, rfl⟩

/-- A slot that is not folded in is not merged. -/
theorem not_merges_of_absorb? {s t : Slot} (h : s.absorb? t = none) : ¬s.Merges t := by
  rintro ⟨offset, storage, kind, kind'⟩
  have register {k : SlotKind} (h : k.scalar? = some storage) :
      ∃ r w bitfield, k = .register r w storage bitfield none := by
    cases k with
    | register r w _ bitfield count =>
        cases count with
        | none =>
            obtain rfl := Option.some.inj h
            exact ⟨r, w, bitfield, rfl⟩
        | some _ => cases h
    | block => cases h
  obtain ⟨_, _, _, first⟩ := register kind
  obtain ⟨_, _, _, second⟩ := register kind'
  simp [Slot.absorb?, first, second, offset] at h

/-- **One more slot of the run.** -/
theorem Slot.Gathers.absorb {x s m : Slot} {run : List Slot} (h : x.Gathers run)
    (absorbed : x.absorb? s = some m) : m.Gathers (run ++ [s]) := by
  have like := like_of_absorb? absorbed
  have scalar := like.kind.scalar?_eq
  obtain ⟨offset, storage, own, other⟩ := merges_of_absorb? absorbed
  obtain ⟨readable, writable⟩ := access_of_absorb? absorbed
  obtain ⟨first, rest, rfl, name⟩ := h.named
  refine ⟨⟨first, rest ++ [s], rfl, name.trans (name_of_absorb? absorbed).symm⟩, ?_, ?_, ?_⟩
  · intro t ht
    rw [like.offset, scalar]
    rcases List.mem_append.mp ht with ht | ht
    · exact h.alike t ht
    · obtain rfl := List.mem_singleton.mp ht
      exact ⟨offset.symm, other.trans own.symm⟩
  · rw [readable, h.readable, List.any_append]
    simp
  · rw [writable, h.writable, List.any_append]
    simp

/-- **Merging cuts slots into runs**, by induction with the run that is open. -/
theorem mergeBehind_runs {last : Slot} {taken slots : List Slot} (h : last.Gathers taken) :
    Runs (taken ++ slots) (mergeBehind last slots) := by
  induction slots generalizing last taken with
  | nil => exact .cons h (fun _ ht => nomatch ht) .nil
  | cons s rest ih =>
      rw [mergeBehind]
      cases absorbed : last.absorb? s with
      | some m =>
          rw [List.append_cons]
          exact ih (h.absorb absorbed)
      | none =>
          refine .cons h ?_ (ih (.single s))
          rintro _ ⟨⟩
          exact not_merges_of_absorb? absorbed

theorem mergeSlots_runs (slots : List Slot) : Runs slots (mergeSlots slots) := by
  cases slots with
  | nil => exact .nil
  | cons s rest => exact mergeBehind_runs (.single s)

/-! ### The run of one slot -/

/-- **The run that a slot is made of**, with the slots on both sides: neither neighbour is
merged. -/
structure Stretch (slots : List Slot) (x : Slot) (before run after : List Slot) : Prop where
  cut : slots = before ++ (run ++ after)
  gathers : x.Gathers run
  front : ∀ t ∈ before.getLast?, ¬t.Merges x
  back : ∀ t ∈ after.head?, ¬t.Merges x

/-- Merging is being alike, for a scalar register. -/
theorem merges_iff {s x : Slot} (scalar : x.kind.scalar?.isSome = true) :
    s.Merges x ↔ s.offset = x.offset ∧ s.kind.scalar? = x.kind.scalar? := by
  obtain ⟨storage, found⟩ := Option.isSome_iff_exists.mp scalar
  rw [found]
  refine ⟨?_, fun ⟨offset, own⟩ => ⟨offset, storage, own, found⟩⟩
  rintro ⟨offset, storage', own, other⟩
  exact ⟨offset, own.trans (other.symm.trans found)⟩

/-- What is merged with a slot of a run is merged with the slot that is made of it. -/
theorem Slot.Gathers.merges {x s t : Slot} {run : List Slot} (h : x.Gathers run) (hs : s ∈ run)
    (merges : s.Merges t) : x.Merges t := by
  obtain ⟨offset, storage, own, other⟩ := merges
  obtain ⟨place, kind⟩ := h.alike s hs
  exact ⟨place.symm.trans offset, storage, kind.symm.trans own, other⟩

/-- What is merged with the slot that is made of a run is merged with each slot of the run. -/
theorem Slot.Gathers.merges_mem {x s t : Slot} {run : List Slot} (h : x.Gathers run) (hs : s ∈ run)
    (merges : t.Merges x) : t.Merges s := by
  obtain ⟨offset, storage, own, other⟩ := merges
  obtain ⟨place, kind⟩ := h.alike s hs
  exact ⟨offset.trans place.symm, storage, own, kind.trans other⟩

theorem Stretch.behind {x y : Slot} {run slots before own after : List Slot}
    (first : x.Gathers run) (apart : ∀ t ∈ slots.head?, ¬x.Merges t)
    (h : Stretch slots y before own after) : Stretch (run ++ slots) y (run ++ before) own after := by
  refine ⟨by rw [h.cut, List.append_assoc], h.gathers, fun t ht merges => ?_, h.back⟩
  rcases before.eq_nil_or_concat with rfl | ⟨front, last, rfl⟩
  · -- The neighbour is in the run before, which does not go on in this one.
    rw [List.append_nil] at ht
    obtain ⟨s, rest, rfl, -⟩ := h.gathers.named
    have own := first.merges (List.mem_of_getLast? ht) merges
    exact apart s (by rw [h.cut]; rfl) (h.gathers.merges_mem List.mem_cons_self own)
  · rw [List.concat_eq_append, ← List.append_assoc, List.getLast?_concat] at ht
    exact h.front t (by rwa [List.concat_eq_append, List.getLast?_concat]) merges

/-- **Each merged slot has its run, and each slot is in one.** -/
theorem Runs.stretches {slots merged : List Slot} (h : Runs slots merged) :
    (∀ x ∈ merged, ∃ before run after, Stretch slots x before run after) ∧
      ∀ s ∈ slots, ∃ x ∈ merged, ∃ before run after, Stretch slots x before run after ∧ s ∈ run := by
  induction h with
  | nil => exact ⟨(fun _ h => nomatch h), (fun _ h => nomatch h)⟩
  | @cons x run slots merged gathers apart _ ih =>
      have own : Stretch (run ++ slots) x [] run slots :=
        ⟨rfl, gathers, (fun _ h => nomatch h), fun t ht merges => apart t ht merges.symm⟩
      refine ⟨fun y hy => ?_, fun s hs => ?_⟩
      · rcases List.mem_cons.mp hy with rfl | hy
        · exact ⟨_, _, _, own⟩
        · obtain ⟨_, _, _, stretch⟩ := ih.1 y hy
          exact ⟨_, _, _, stretch.behind gathers apart⟩
      · rcases List.mem_append.mp hs with hs | hs
        · exact ⟨x, List.mem_cons_self, _, _, _, own, hs⟩
        · obtain ⟨y, hy, _, _, _, stretch, inside⟩ := ih.2 s hs
          exact ⟨y, List.mem_cons_of_mem _ hy, _, _, _, stretch.behind gathers apart, inside⟩

/-! ### Slots in strict order -/

/-- In the order of offsets, and of names at one offset. -/
def Slot.Before (s t : Slot) : Prop := s.offset < t.offset ∨ s.offset = t.offset ∧ s.name < t.name

theorem Slot.Before.offset_le {s t : Slot} (h : s.Before t) : s.offset ≤ t.offset :=
  h.elim Nat.le_of_lt fun h => Nat.le_of_eq h.1

theorem Slot.Before.name_lt {s t : Slot} (h : s.Before t) (same : s.offset = t.offset) :
    s.name < t.name :=
  h.elim (fun less => absurd same (Nat.ne_of_lt less)) And.right

/-- **Slots with distinct names are in strict order** when they are sorted. -/
theorem sortSlots_strict {slots : List Slot} (distinct : (slots.map (·.name)).Nodup) :
    (sortSlots slots).Pairwise Slot.Before := by
  have perm : (sortSlots slots).Perm slots := Name.sortOn_perm _ _ slots
  have names : ((sortSlots slots).map (·.name)).Nodup := (perm.map (·.name)).nodup_iff.mpr distinct
  have sorted : (sortSlots slots).Pairwise fun s t =>
      Name.lexLe Name.textLe (s.offset, s.name) (t.offset, t.name) = true :=
    Name.sortOn_pairwise Name.textLe_totalOrder.lexLe
  refine (sorted.and (List.pairwise_map.mp names)).imp fun {s t} h => ?_
  rcases Name.lexLe_iff.mp h.1 with less | ⟨same, less⟩
  · exact .inl less
  · exact .inr ⟨same, lt_of_le_of_ne (Name.textLe_iff.mp less) h.2⟩

/-- **A slot that another one parts from a member**: of the same place, but of another kind or
storage, and between them by name.  Which of the two comes first does not matter. -/
def Slot.Parted (slots : List Slot) (s x : Slot) : Prop :=
  ∃ t ∈ slots, t.offset = x.offset ∧ ¬t.Merges x ∧
    (s.name < t.name ∧ t.name < x.name ∨ x.name < t.name ∧ t.name < s.name)

section Ordered

variable {slots before run after : List Slot} {x : Slot}

/-- The first slot of a run has the least name. -/
theorem Stretch.name_le (h : Stretch slots x before run after)
    (ordered : slots.Pairwise Slot.Before) : ∀ s ∈ run, x.name ≤ s.name := by
  obtain ⟨first, rest, rfl, name⟩ := h.gathers.named
  rw [h.cut] at ordered
  have inside := (List.pairwise_append.mp (List.pairwise_append.mp ordered).2.1).1
  intro s hs
  rcases List.mem_cons.mp hs with rfl | hs
  · exact le_of_eq name.symm
  · have same := (h.gathers.alike first List.mem_cons_self).1.trans
      (h.gathers.alike s (List.mem_cons_of_mem _ hs)).1.symm
    exact name ▸ le_of_lt ((List.rel_of_pairwise_cons inside hs).name_lt same)

/-- A slot of a run is not parted from the slot that is made of it: what stands between them is in
the run too. -/
theorem Stretch.not_parted (h : Stretch slots x before run after)
    (ordered : slots.Pairwise Slot.Before) (scalar : x.kind.scalar?.isSome = true) {s : Slot}
    (hs : s ∈ run) : ¬s.Parted slots x := by
  have least := h.name_le ordered s hs
  rintro ⟨t, ht, same, other, between⟩
  have between := between.resolve_left fun less => absurd (less.1.trans less.2) (not_lt_of_ge least)
  obtain ⟨first, others, rfl, name⟩ := h.gathers.named
  rw [h.cut] at ht ordered
  obtain ⟨-, rest, fromFront⟩ := List.pairwise_append.mp ordered
  obtain ⟨-, -, toBack⟩ := List.pairwise_append.mp rest
  rcases List.mem_append.mp ht with ht | ht
  · have place := (h.gathers.alike first List.mem_cons_self).1
    have less := (fromFront t ht first (List.mem_append_left _ List.mem_cons_self)).name_lt
      (same.trans place.symm)
    exact lt_asymm between.1 (name ▸ less)
  · rcases List.mem_append.mp ht with ht | ht
    · exact other ((merges_iff scalar).mpr (h.gathers.alike t ht))
    · have less := (toBack s hs t ht).name_lt ((h.gathers.alike s hs).1.trans same.symm)
      exact lt_asymm between.2 less

/-- The neighbour in front of a run parts what stands before it. -/
theorem Stretch.parted_before (h : Stretch slots x before run after)
    (ordered : slots.Pairwise Slot.Before) {s : Slot} (hs : s ∈ before) (merges : s.Merges x) :
    s.Parted slots x := by
  obtain ⟨first, others, rfl, name⟩ := h.gathers.named
  have place := (h.gathers.alike first List.mem_cons_self).1
  rcases before.eq_nil_or_concat with rfl | ⟨lead, t, rfl⟩
  · cases hs
  · rw [List.concat_eq_append] at h hs
    have stranger := h.front t (by rw [List.getLast?_concat]; rfl)
    rw [h.cut] at ordered
    obtain ⟨front, -, fromFront⟩ := List.pairwise_append.mp ordered
    have toFirst := fromFront t (by simp) first (List.mem_append_left _ List.mem_cons_self)
    rcases List.mem_append.mp hs with hs | hs
    · have less := (List.pairwise_append.mp front).2.2 s hs t List.mem_cons_self
      have same : t.offset = x.offset := Nat.le_antisymm
        (place ▸ toFirst.offset_le) (merges.1 ▸ less.offset_le)
      refine ⟨t, by rw [h.cut]; simp, same, stranger, .inl ⟨?_, ?_⟩⟩
      · exact less.name_lt (merges.1.trans same.symm)
      · exact name ▸ toFirst.name_lt (same.trans place.symm)
    · obtain rfl := List.mem_singleton.mp hs
      exact absurd merges stranger

/-- The neighbour behind a run parts what stands behind it. -/
theorem Stretch.parted_after (h : Stretch slots x before run after)
    (ordered : slots.Pairwise Slot.Before) {s : Slot} (hs : s ∈ after) (merges : s.Merges x) :
    s.Parted slots x := by
  obtain ⟨first, others, rfl, name⟩ := h.gathers.named
  have place := (h.gathers.alike first List.mem_cons_self).1
  cases after with
  | nil => cases hs
  | cons t tail =>
      have stranger := h.back t rfl
      rw [h.cut] at ordered
      obtain ⟨-, rest, -⟩ := List.pairwise_append.mp ordered
      obtain ⟨-, back, toBack⟩ := List.pairwise_append.mp rest
      have fromFirst := toBack first List.mem_cons_self t List.mem_cons_self
      rcases List.mem_cons.mp hs with rfl | hs
      · exact absurd merges stranger
      · have less := List.rel_of_pairwise_cons back hs
        have same : t.offset = x.offset := Nat.le_antisymm
          (merges.1 ▸ less.offset_le) (place ▸ fromFirst.offset_le)
        refine ⟨t, by rw [h.cut]; simp, same, stranger, .inr ⟨?_, ?_⟩⟩
        · exact name ▸ fromFirst.name_lt (place.trans same.symm)
        · exact less.name_lt (same.trans merges.1.symm)

/-- **The run of a scalar register** holds the slots that are merged with it and are not parted from
it. -/
theorem Stretch.mem_run_iff (h : Stretch slots x before run after)
    (ordered : slots.Pairwise Slot.Before) (scalar : x.kind.scalar?.isSome = true) {s : Slot} :
    s ∈ run ↔ s ∈ slots ∧ s.Merges x ∧ ¬s.Parted slots x := by
  rw [h.cut, List.mem_append, List.mem_append, ← h.cut]
  constructor
  · intro hs
    exact ⟨.inr (.inl hs), (merges_iff scalar).mpr (h.gathers.alike s hs),
      h.not_parted ordered scalar hs⟩
  · rintro ⟨hs | hs | hs, merges, whole⟩
    · exact absurd (h.parted_before ordered hs merges) whole
    · exact hs
    · exact absurd (h.parted_after ordered hs merges) whole

end Ordered

/-! ### Structs -/

/-- A slot that is placed once is not remarked on. -/
theorem not_remark_of_field {slots : List Slot} (distinct : slots.Nodup) {s : Slot} :
    ∀ {next number : Nat}, .field s ∈ (place next number slots).1 →
      .remark s ∉ (place next number slots).1 := by
  induction slots with
  | nil => exact fun h => nomatch h
  | cons t rest ih =>
      obtain ⟨fresh, distinct⟩ := List.nodup_cons.mp distinct
      intro next number field remark
      rw [place] at field remark
      split at field
      · next taken =>
        rw [if_pos taken] at remark
        rcases List.mem_cons.mp field with h | inRest
        · cases h
        · rcases List.mem_cons.mp remark with h | again
          · cases h
            exact fresh (mem_of_field inRest)
          · exact ih distinct inRest again
      · next free =>
        rw [if_neg free] at remark
        -- A reservation is about no slot, so what stands behind it decides.
        have placed {next' number' : Nat}
            (field : .field s ∈ Entry.field t :: (place next' number' rest).1)
            (remark : .remark s ∈ Entry.field t :: (place next' number' rest).1) : False := by
          rcases List.mem_cons.mp remark with h | inRest
          · cases h
          · rcases List.mem_cons.mp field with h | again
            · cases h
              exact fresh (mem_of_mem_place (.inr rfl) inRest)
            · exact ih distinct again inRest
        split at field
        · next gap =>
          rw [if_pos gap] at remark
          rcases List.mem_cons.mp field with h | behind
          · cases h
          · rcases List.mem_cons.mp remark with h | behind'
            · cases h
            · exact placed behind behind'
        · next touch =>
          rw [if_neg touch] at remark
          exact placed field remark

/-- **A member takes all registers of its place and storage**: it may be read or written if one of
them may be, no other member has one of them, and none is remarked on. -/
structure Block.TakesAll (b : Block) (x : Slot) : Prop where
  readable : x.kind.isReadable = true ↔ ∃ s ∈ b.slots, s.Merges x ∧ s.kind.isReadable = true
  writable : x.kind.isWritable = true ↔ ∃ s ∈ b.slots, s.Merges x ∧ s.kind.isWritable = true
  alone : ∀ y, .field y ∈ b.declaration.entries → y.Merges x → y = x
  silent : ∀ y, .remark y ∈ b.declaration.entries → ¬y.Merges x

section Blocks

variable {b : Block} (distinct : (b.slots.map (·.name)).Nodup)

include distinct

theorem Block.mem_run_iff {x : Slot} {before run after : List Slot}
    (h : Stretch (sortSlots b.slots) x before run after)
    (scalar : x.kind.scalar?.isSome = true) {s : Slot} :
    s ∈ run ↔ s ∈ b.slots ∧ s.Merges x ∧ ¬s.Parted b.slots x := by
  have mem {t : Slot} : t ∈ sortSlots b.slots ↔ t ∈ b.slots := Name.mem_sortOn
  rw [h.mem_run_iff (sortSlots_strict distinct) scalar, mem]
  simp only [Slot.Parted, mem]

variable {x : Slot} (placed : x ∈ mergeSlots (sortSlots b.slots))
variable (scalar : x.kind.scalar?.isSome = true)

include placed scalar

/-- **What a placed register may be used for** is what the slots of its run may be used for. -/
theorem Block.access_iff :
    (x.kind.isReadable = true ↔
        ∃ s ∈ b.slots, s.Merges x ∧ ¬s.Parted b.slots x ∧ s.kind.isReadable = true) ∧
      (x.kind.isWritable = true ↔
        ∃ s ∈ b.slots, s.Merges x ∧ ¬s.Parted b.slots x ∧ s.kind.isWritable = true) := by
  obtain ⟨_, _, _, stretch⟩ := (mergeSlots_runs _).stretches.1 x placed
  have run {s : Slot} := Block.mem_run_iff distinct stretch scalar (s := s)
  constructor
  · rw [stretch.gathers.readable, List.any_eq_true]
    simp only [run, and_assoc]
  · rw [stretch.gathers.writable, List.any_eq_true]
    simp only [run, and_assoc]

/-- **Only one slot is made of registers that nothing parts.** -/
theorem Block.eq_of_merges (whole : ∀ s ∈ b.slots, s.Merges x → ¬s.Parted b.slots x) {y : Slot}
    (other : y ∈ mergeSlots (sortSlots b.slots)) (merges : y.Merges x) : y = x := by
  have mem {t : Slot} : t ∈ sortSlots b.slots ↔ t ∈ b.slots := Name.mem_sortOn
  obtain ⟨_, own, _, stretch⟩ := (mergeSlots_runs _).stretches.1 x placed
  obtain ⟨_, run, _, stretch'⟩ := (mergeSlots_runs _).stretches.1 y other
  have least := stretch.name_le (sortSlots_strict distinct)
  have least' := stretch'.name_le (sortSlots_strict distinct)
  have scalar' : y.kind.scalar?.isSome = true := by
    obtain ⟨_, _, kind, _⟩ := merges
    rw [kind]
    rfl
  obtain ⟨first, rest, cut, name⟩ := stretch.gathers.named
  obtain ⟨first', rest', cut', name'⟩ := stretch'.gathers.named
  have head : first ∈ own := cut ▸ List.mem_cons_self
  have head' : first' ∈ run := cut' ▸ List.mem_cons_self
  obtain ⟨listed, ownMerges, -⟩ := (Block.mem_run_iff distinct stretch scalar).mp head
  obtain ⟨listed', runMerges, -⟩ := (Block.mem_run_iff distinct stretch' scalar').mp head'
  have inside : first' ∈ own := by
    refine (Block.mem_run_iff distinct stretch scalar).mpr ⟨listed', runMerges.symm.trans merges, ?_⟩
    exact whole first' listed' (runMerges.symm.trans merges)
  have inside' : first ∈ run := by
    refine (Block.mem_run_iff distinct stretch' scalar').mpr
      ⟨listed, ownMerges.symm.trans merges.symm, ?_⟩
    -- What parts the two first slots parts them in both directions.
    rintro ⟨t, ht, place, stranger, between⟩
    refine whole first' listed' (runMerges.symm.trans merges) ⟨t, ht, place.trans merges.1, ?_, ?_⟩
    · exact fun h => stranger (h.symm.trans merges.symm)
    · rw [name']
      rw [name] at between
      exact between.symm
  have same : y.name = x.name :=
    le_antisymm (name ▸ least' first inside') (name' ▸ least first' inside)
  exact List.inj_on_of_nodup_map (merged_names_nodup distinct) other placed same

/-- **A member takes all registers of its place and storage exactly when nothing parts one of them
from it.** -/
theorem Block.takesAll_iff (member : .field x ∈ b.declaration.entries) :
    b.TakesAll x ↔ ∀ s ∈ b.slots, s.Merges x → ¬s.Parted b.slots x := by
  have access := Block.access_iff distinct placed scalar
  constructor
  · intro takes s hs merges parted
    obtain ⟨y, hy, _, run, _, stretch, inside⟩ :=
      (mergeSlots_runs (sortSlots b.slots)).stretches.2 s (Name.mem_sortOn.mpr hs)
    have own : y.Merges x := stretch.gathers.merges inside merges
    have stands : .field y ∈ (place 0 0 (mergeSlots (sortSlots b.slots))).1 ∨
        .remark y ∈ (place 0 0 (mergeSlots (sortSlots b.slots))).1 := field_or_remark hy
    rcases stands with field | remark
    · obtain rfl := takes.alone y (field_mem_iff.mpr field) own
      exact ((Block.mem_run_iff distinct stretch scalar).mp inside).2.2 parted
    · exact takes.silent y (remark_mem_iff.mpr remark) own
  · intro whole
    have one {y : Slot} := Block.eq_of_merges distinct placed scalar whole (y := y)
    refine ⟨?_, ?_, fun y hy => ?_, fun y hy merges => ?_⟩
    · rw [access.1]
      exact ⟨fun ⟨s, hs, merges, _, may⟩ => ⟨s, hs, merges, may⟩,
        fun ⟨s, hs, merges, may⟩ => ⟨s, hs, merges, whole s hs merges, may⟩⟩
    · rw [access.2]
      exact ⟨fun ⟨s, hs, merges, _, may⟩ => ⟨s, hs, merges, may⟩,
        fun ⟨s, hs, merges, may⟩ => ⟨s, hs, merges, whole s hs merges, may⟩⟩
    · exact one (mem_of_field (field_mem_iff.mp hy))
    · obtain rfl := one (mem_of_mem_place (.inr rfl) (remark_mem_iff.mp hy)) merges
      exact not_remark_of_field (merged_names_nodup distinct).of_map
        (field_mem_iff.mp member) (remark_mem_iff.mp hy)

end Blocks

/-! ### Peripherals -/

/-- The slots of each struct of a node have distinct names. -/
theorem BlockShaped.names {registers : List Register} {stride : Option Nat} {nested : List Slot}
    {inner blocks : List Block} (h : BlockShaped registers stride nested inner blocks)
    (distinct : ∀ b ∈ inner, (b.slots.map (·.name)).Nodup) :
    ∀ b ∈ blocks, (b.slots.map (·.name)).Nodup := by
  cases h with
  | empty => exact fun b hb => nomatch hb
  | block _ slots =>
      refine List.forall_mem_cons.mpr ⟨?_, distinct⟩
      subst slots
      exact nameMembers_nodup _

theorem Shaped.names {clusters : List Cluster} {slots : List Slot} {blocks : List Block}
    (h : Shaped clusters slots blocks) : ∀ b ∈ blocks, (b.slots.map (·.name)).Nodup := by
  induction h with
  | nil => exact fun b hb => nomatch hb
  | cons _ own _ inner rest => exact List.forall_mem_append.mpr ⟨own.names inner, rest⟩

theorem shapePeripheral_names (p : Peripheral) :
    ∀ b ∈ (shapePeripheral p).blocks, (b.slots.map (·.name)).Nodup := by
  obtain ⟨_, _, shaped, own, -⟩ := shapePeripheral_shaped p
  exact own.names shaped.names

/-- **A register member of a struct** takes the registers of its place and storage that nothing
parts from it, and so it takes all of them exactly when nothing parts one of them from it. -/
theorem shapePeripheral_takesAll {p : Peripheral} {b : Block} (hb : b ∈ (shapePeripheral p).blocks)
    {x : Slot} (member : .field x ∈ b.declaration.entries)
    (scalar : x.kind.scalar?.isSome = true) :
    (x.kind.isReadable = true ↔
        ∃ s ∈ b.slots, s.Merges x ∧ ¬s.Parted b.slots x ∧ s.kind.isReadable = true) ∧
      (x.kind.isWritable = true ↔
        ∃ s ∈ b.slots, s.Merges x ∧ ¬s.Parted b.slots x ∧ s.kind.isWritable = true) ∧
      (b.TakesAll x ↔ ∀ s ∈ b.slots, s.Merges x → ¬s.Parted b.slots x) := by
  have distinct := shapePeripheral_names p b hb
  have placed := mem_of_field (field_mem_iff.mp member)
  obtain ⟨readable, writable⟩ := Block.access_iff distinct placed scalar
  exact ⟨readable, writable, Block.takesAll_iff distinct placed scalar member⟩

/-! ### Two registers of one place -/

/-- A peripheral with a register that may be read and one that may be written at one place, and with
other registers listed between them. -/
def mailbox (between : List Register) : Peripheral where
  name := "BOX"
  description := none
  groupName := none
  baseAddress := 0
  addressRange := ⟨0, 4⟩
  interrupts := []
  registers := { Map.Register.plain "RX" 0 32 with access := .readOnly } :: between ++
    [{ Map.Register.plain "TX" 0 32 with access := .writeOnly }]
  clusters := []

def received : Slot := ⟨0, 4, "rx", .register true false .u32 none none⟩

def sent : Slot := ⟨0, 4, "tx", .register false true .u32 none none⟩

def exchanged : Slot := ⟨0, 4, "rx", .register true true .u32 none none⟩

/-- **The two registers become one member** when nothing stands between them. -/
theorem shapePeripheral_takesAll_mailbox :
    ∃ b ∈ (shapePeripheral (mailbox [])).blocks, .field exchanged ∈ b.declaration.entries ∧
      exchanged.kind.scalar?.isSome = true ∧ b.TakesAll exchanged := by
  have blocks : (shapePeripheral (mailbox [])).blocks = [⟨"Box", 4, [received, sent]⟩] := by
    decide +kernel
  have own : ⟨"Box", 4, [received, sent]⟩ ∈ (shapePeripheral (mailbox [])).blocks := by
    rw [blocks]
    exact List.mem_cons_self
  have declared : Block.declaration ⟨"Box", 4, [received, sent]⟩ =
      ⟨"Box", [.field exchanged], 4⟩ := by
    cbv
  have member : .field exchanged ∈ (Block.declaration ⟨"Box", 4, [received, sent]⟩).entries := by
    rw [declared]
    exact List.mem_cons_self
  refine ⟨_, own, member, rfl, (shapePeripheral_takesAll own member rfl).2.2.mpr ?_⟩
  rintro s - - ⟨t, ht, -, stranger, -⟩
  refine stranger ⟨?_, .u32, ?_, rfl⟩
  · exact (by decide : ∀ t ∈ [received, sent], t.offset = 0) t ht
  · exact (by decide : ∀ t ∈ [received, sent], t.kind.scalar? = some .u32) t ht

/-- **A byte between them by name parts the two registers**, so the second one is only remarked on
and the member may not be written. -/
theorem shapePeripheral_not_takesAll :
    ∃ b ∈ (shapePeripheral (mailbox [.plain "STATUS" 0 8])).blocks,
      .field received ∈ b.declaration.entries ∧ received.kind.scalar?.isSome = true ∧
        .remark sent ∈ b.declaration.entries ∧ sent ∈ b.slots ∧ sent.Merges received ∧
          ¬b.TakesAll received := by
  let status : Slot := ⟨0, 1, "status", .register true true .u8 none none⟩
  have blocks : (shapePeripheral (mailbox [.plain "STATUS" 0 8])).blocks =
      [⟨"Box", 4, [received, status, sent]⟩] := by
    decide +kernel
  have declared : Block.declaration ⟨"Box", 4, [received, status, sent]⟩ =
      ⟨"Box", [.field received, .remark status, .remark sent], 4⟩ := by
    cbv
  have merges : sent.Merges received := ⟨rfl, .u32, rfl, rfl⟩
  have remark : .remark sent ∈
      (Block.declaration ⟨"Box", 4, [received, status, sent]⟩).entries := by
    rw [declared]
    decide
  rw [blocks]
  refine ⟨_, List.mem_cons_self, ?_, rfl, remark, by decide, merges, fun takes => ?_⟩
  · rw [declared]
    exact List.mem_cons_self
  · exact takes.silent sent remark merges

end ChipMap.Source
