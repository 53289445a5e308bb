import ChipMap.Proofs.Source.Takes

/-!
# The slots of a struct take the pieces of its node

The shape of a peripheral is walked once, from the innermost clusters outwards, and at each node
**the slots of its struct take its pieces** (`Stands.grouped`).

### What is load-bearing

A node has no struct exactly when it has no piece: every slot has a byte, so slots that end at zero
are none (`BlockShaped.nothing`).  The size of a struct is that of the room of its pieces
(`BlockShaped.size_eq`), which is what the slots of its cluster count on.

Sizes go outwards and names go inwards.  A slot of a cluster knows the size of its struct when it is
made, while the struct is found by its name later; that both are one size is
`BlockShaped.structBytes_eq`, and it is why the names have to be distinct.
-/

namespace ChipMap.Source

open Map (Register Cluster Peripheral Vector Located)

variable {structs : List StructDecl}

/-- Naming members changes nothing but names. -/
theorem nameMembers_renamed (slots : List Slot) :
    List.Forall₂ (fun t s => t = { s with name := t.name }) (nameMembers slots) slots := by
  unfold nameMembers Name.claimAll
  generalize Name.Claimed.empty = claimed
  induction slots generalizing claimed with
  | nil => exact .nil
  | cons s rest ih => exact .cons rfl (ih _)

/-! ### Slots that are there -/

section Arrays

variable {name : String} {offset : Word} {size : Nat} {vector : Option Vector}
variable {kind : Option Nat → SlotKind}

/-- A node has no slot exactly when it has no element. -/
theorem arraySlots_eq_nil_iff :
    arraySlots name offset size vector kind = [] ↔ Map.offsets offset vector = [] := by
  cases vector with
  | none => simp [arraySlots, Map.offsets]
  | some v =>
      have zero_iff : v.count.toNat = 0 ↔ v.count = 0 :=
        ⟨fun zero => BitVec.eq_of_toNat_eq zero, fun zero => congrArg BitVec.toNat zero⟩
      rw [Map.offsets, List.map_eq_nil_iff, List.range_eq_nil, arraySlots]
      split
      · next zero => simp [zero]
      · next some =>
        rw [← zero_iff] at some
        split
        · simp [some]
        · simp [some]

/-- **A slot of a node** has the name of the node with something behind it, and is of its kind. -/
theorem exists_of_mem_arraySlots {s : Slot} (h : s ∈ arraySlots name offset size vector kind) :
    ∃ suffix count, s.name = Name.snakeCase (name ++ suffix) ∧ s.kind = kind count := by
  unfold arraySlots at h
  -- What the case of a name is does not matter, and must not be unfolded.
  generalize Name.snakeCase = snake at h ⊢
  have plain : snake name = snake (name ++ "") := congrArg snake String.append_empty.symm
  split at h
  · obtain rfl := List.mem_singleton.mp h
    exact ⟨"", _, plain, rfl⟩
  · next v =>
    split at h
    · cases h
    · split at h
      · obtain rfl := List.mem_singleton.mp h
        exact ⟨"", _, plain, rfl⟩
      · obtain ⟨i, -, rfl⟩ := List.mem_map.mp h
        exact ⟨"_" ++ toString i, none, congrArg snake (String.append_assoc ..), rfl⟩

theorem stop_pos_of_mem_arraySlots (positive : 0 < size) {s : Slot}
    (h : s ∈ arraySlots name offset size vector kind) : 0 < s.stop := by
  have ends : 0 < s.size := by
    unfold arraySlots at h
    split at h
    · obtain rfl := List.mem_singleton.mp h
      exact positive
    · next v =>
      split at h
      · cases h
      · next some =>
        split at h
        · obtain rfl := List.mem_singleton.mp h
          have several : v.count.toNat ≠ 0 := fun zero => some (BitVec.eq_of_toNat_eq zero)
          have product := Nat.mul_pos positive (Nat.pos_of_ne_zero several)
          simp only [clampedMul, clamp, Word.greatest]
          omega
        · obtain ⟨i, -, rfl⟩ := List.mem_map.mp h
          exact positive
  simp only [Slot.stop, clampedAdd, clamp, Word.greatest]
  omega

end Arrays

/-- A struct is not empty and not shorter than its slots. -/
theorem BlockShaped.size {registers : List Register} {stride : Option Nat} {nested : List Slot}
    {inner rest : List Block} {b : Block}
    (h : BlockShaped registers stride nested inner (b :: rest)) :
    0 < b.size ∧ slotsEnd b.slots ≤ b.size := by
  cases h with
  | @block _ _ _ slots _ _ some size =>
      have padded := le_paddedSize stride (slotsEnd slots)
      rw [size]
      exact ⟨Nat.lt_of_lt_of_le (Nat.pos_of_ne_zero some) padded, padded⟩

theorem BlockShaped.eq_cons {registers : List Register} {stride : Option Nat} {nested : List Slot}
    {inner rest : List Block} {b : Block}
    (h : BlockShaped registers stride nested inner (b :: rest)) : rest = inner := by
  cases h with
  | block _ _ _ _ => rfl

/-- Every slot of a cluster ends behind the start of its node. -/
theorem Shaped.stop_pos {clusters : List Cluster} {slots : List Slot} {blocks : List Block}
    (h : Shaped clusters slots blocks) : ∀ s ∈ slots, 0 < s.stop := by
  induction h with
  | nil => exact fun s hs => nomatch hs
  | @cons c rest _ others inner blocks _ _ own _ _ ih =>
      intro s hs
      rcases List.mem_append.mp hs with hs | hs
      · cases blocks with
        | nil => cases hs
        | cons b behind => exact stop_pos_of_mem_arraySlots own.size.1 hs
      · exact ih s hs

/-- **A node without a byte has no slot**, so its registers have no element. -/
theorem BlockShaped.nothing {registers : List Register} {stride : Option Nat} {nested : List Slot}
    {inner : List Block} (h : BlockShaped registers stride nested inner [])
    (positive : ∀ s ∈ nested, 0 < s.stop) :
    nested = [] ∧ registers.flatMap registerPieces = [] := by
  cases h with
  | @empty own shaped zero =>
      have positive : ∀ s ∈ own.flatten ++ nested, 0 < s.stop := by
        intro s hs
        rcases List.mem_append.mp hs with hs | hs
        · obtain ⟨slots, hslots, hs⟩ := List.mem_flatten.mp hs
          obtain ⟨r, -, bitfield, rfl⟩ := exists_of_forall₂ shaped.flip hslots
          exact stop_pos_of_mem_arraySlots (Storage.bytes_pos _) hs
        · exact positive s hs
      have none : own.flatten ++ nested = [] := by
        refine List.eq_nil_iff_forall_not_mem.mpr fun s hs => ?_
        obtain ⟨t, ht, same⟩ := exists_of_forall₂ (nameMembers_renamed _).flip hs
        have bound := slotsEnd_le_iff.mp (Nat.le_of_eq zero) t ht
        rw [same] at bound
        exact absurd (positive s hs) (Nat.not_lt.mpr bound)
      obtain ⟨noOwn, noNested⟩ := List.append_eq_nil_iff.mp none
      refine ⟨noNested, List.flatMap_eq_nil_iff.mpr fun r hr => ?_⟩
      obtain ⟨slots, hslots, bitfield, shape⟩ := exists_of_forall₂ shaped hr
      rw [List.flatten_eq_nil_iff.mp noOwn slots hslots] at shape
      rw [registerPieces, arraySlots_eq_nil_iff.mp shape.symm, List.map_nil]

/-- **Clusters without a slot have no piece.** -/
theorem Shaped.nothing {clusters : List Cluster} {slots : List Slot} {blocks : List Block}
    (h : Shaped clusters slots blocks) (none : slots = []) :
    clusters.flatMap clusterPieces = [] := by
  induction h with
  | nil => rfl
  | @cons c rest nested others inner blocks _ inside own _ ihInner ihRest =>
      obtain ⟨noSlot, noOther⟩ := List.append_eq_nil_iff.mp none
      rw [List.flatMap_cons, ihRest noOther, List.append_nil, clusterPieces_eq]
      cases blocks with
      | nil =>
          obtain ⟨noNested, noRegister⟩ := own.nothing inside.stop_pos
          rw [if_pos]
          rw [pieces, noRegister, ihInner noNested]
          rfl
      | cons b behind =>
          rw [clusterSlots, arraySlots_eq_nil_iff] at noSlot
          split
          · rfl
          · rw [noSlot, List.map_nil]

/-- **A node without a struct has no piece.** -/
theorem BlockShaped.pieces_eq_nil {registers : List Register} {clusters : List Cluster}
    {stride : Option Nat} {nested : List Slot} {inner : List Block}
    (h : BlockShaped registers stride nested inner []) (inside : Shaped clusters nested inner) :
    pieces registers clusters = [] := by
  obtain ⟨noNested, noRegister⟩ := h.nothing inside.stop_pos
  rw [pieces, noRegister, inside.nothing noNested, List.append_nil]

/-! ### Slots and pieces -/

/-- The slots of registers take their pieces. -/
theorem registers_grouped {registers : List Register}
    {own : List (List Slot)} (shaped : List.Forall₂ RegisterShaped registers own)
    (fits : ∀ s ∈ own.flatten, s.Fits structs) :
    Grouped structs own.flatten (registers.flatMap registerPieces) := by
  induction shaped with
  | nil => exact .nil
  | @cons r slots registers own shape _ ih =>
      obtain ⟨bitfield, rfl⟩ := shape
      rw [List.flatten_cons, List.flatMap_cons]
      refine .append ?_ (ih fun s hs => fits s (List.mem_append_right _ hs))
      exact arraySlots_grouped (Storage.bytes_pos _) (fun _ => rfl) (fun _ => rfl) (fun _ => rfl)
        (fun _ _ => ⟨r, rfl, rfl⟩) fun s hs => fits s (List.mem_append_left _ hs)

/-- The slots of a struct take the pieces of its node when those of its clusters do. -/
theorem BlockShaped.grouped {registers : List Register} {clusters : List Cluster}
    {stride : Option Nat} {nested : List Slot} {inner rest : List Block} {b : Block}
    (h : BlockShaped registers stride nested inner (b :: rest))
    (fits : ∀ s ∈ b.slots, s.Fits structs)
    (grouped : (∀ s ∈ nested, s.Fits structs) →
      Grouped structs nested (clusters.flatMap clusterPieces)) :
    Grouped structs b.slots (pieces registers clusters) := by
  cases h with
  | @block own _ _ slots shaped renamed _ _ =>
      rw [renamed] at fits ⊢
      have names := nameMembers_renamed (own.flatten ++ nested)
      have fits : ∀ s ∈ own.flatten ++ nested, s.Fits structs := by
        intro s hs
        obtain ⟨t, ht, same⟩ := exists_of_forall₂ names.flip hs
        have ends := fits t ht
        rw [same] at ends
        exact ends
      refine .rename (.append ?_ ?_) names
      · exact registers_grouped shaped fun s hs => fits s (List.mem_append_left _ hs)
      · exact grouped fun s hs => fits s (List.mem_append_right _ hs)

/-- **A struct has the size of the room of its pieces.** -/
theorem BlockShaped.size_eq {registers : List Register} {clusters : List Cluster}
    {stride : Option Nat} {nested : List Slot} {inner rest : List Block} {b : Block}
    (h : BlockShaped registers stride nested inner (b :: rest))
    (fits : ∀ s ∈ b.slots, s.Fits structs)
    (grouped : Grouped structs b.slots (pieces registers clusters)) :
    b.size = paddedSize stride (piecesEnd (pieces registers clusters)) := by
  rw [← grouped.slotsEnd_eq fits]
  cases h with
  | block _ _ _ size => exact size

section Named

variable (names : (structs.map (·.name)).Nodup)

include names

/-- The struct of a name has the size that its node was given. -/
theorem BlockShaped.structBytes_eq {registers : List Register} {stride : Option Nat}
    {nested : List Slot} {inner rest : List Block} {b : Block}
    (h : BlockShaped registers stride nested inner (b :: rest))
    (declared : b.declaration ∈ structs) : structBytes structs b.name = b.size := by
  rw [← declaration_stop h.size.2, ← Source.structBytes_eq names declared, declaration_name]

/-- **The slots of clusters take their pieces**, by induction on the shape. -/
theorem Shaped.grouped {clusters : List Cluster} {slots : List Slot} {blocks : List Block}
    (h : Shaped clusters slots blocks) (emitted : Emitted structs blocks)
    (fits : ∀ s ∈ slots, s.Fits structs) :
    Grouped structs slots (clusters.flatMap clusterPieces) := by
  induction h with
  | nil => exact .nil
  | @cons c rest nested others inner blocks otherBlocks inside own _ ihInner ihRest =>
      have later := ihRest (fun b hb => emitted b (List.mem_append_right _ hb))
        fun s hs => fits s (List.mem_append_right _ hs)
      rw [List.flatMap_cons]
      refine .append ?_ later
      cases blocks with
      | nil =>
          have none := own.pieces_eq_nil inside
          rw [clusterPieces_eq, if_pos (piecesEnd_eq_zero_iff.mpr none)]
          exact .nil
      | cons b behind =>
          obtain rfl := own.eq_cons
          have emitted : Emitted structs (b :: behind) :=
            fun b' hb' => emitted b' (List.mem_append_left _ hb')
          obtain ⟨declared, ends⟩ := emitted b List.mem_cons_self
          have grouped := own.grouped ends
            (ihInner fun b' hb' => emitted b' (List.mem_cons_of_mem _ hb'))
          have size := own.size_eq ends grouped
          -- The struct is there, so it is not empty, and so the cluster has pieces.
          have some : piecesEnd (pieces c.registers c.clusters) ≠ 0 := by
            rw [← grouped.slotsEnd_eq ends]
            cases own with
            | block _ _ some _ => exact some
          rw [clusterPieces_eq, if_neg some, ← size]
          exact arraySlots_grouped own.size.1 (fun _ => rfl)
            (fun _ => own.structBytes_eq names declared) (fun _ => rfl)
            (fun _ _ => ⟨c, rfl, b, rfl, strideOf c, nested, behind, inside, own, emitted⟩)
            fun s hs => fits s (List.mem_append_left _ hs)

/-- **The slots of a struct take the pieces of its node.** -/
theorem Stands.grouped {b : Block} {registers : List Register} {clusters : List Cluster}
    (h : Stands structs b registers clusters) :
    Grouped structs b.slots (pieces registers clusters) := by
  obtain ⟨stride, nested, inner, shaped, own, emitted⟩ := h
  exact own.grouped (emitted b List.mem_cons_self).2 fun fits =>
    shaped.grouped names (fun b' hb' => emitted b' (List.mem_cons_of_mem _ hb')) fits

/-- The slots of a struct count on the exact sizes, and so end where their bytes do
(`Stands.stop_eq`). -/
theorem Stands.counts {b : Block} {registers : List Register} {clusters : List Cluster}
    (h : Stands structs b registers clusters) : ∀ s ∈ b.slots, s.size = s.bytes structs := by
  intro s hs
  obtain ⟨group, takes, -⟩ := (h.grouped names).exists_group hs
  exact takes.counted

theorem Stands.stop_eq {b : Block} {registers : List Register} {clusters : List Cluster}
    (h : Stands structs b registers clusters) :
    ∀ s ∈ b.slots, s.stop = s.offset + s.bytes structs := by
  intro s hs
  obtain ⟨group, takes, -⟩ := (h.grouped names).exists_group hs
  exact takes.stop_eq (h.fits s hs)

theorem Stands.nonempty {b : Block} {registers : List Register} {clusters : List Cluster}
    (h : Stands structs b registers clusters) : ∀ s ∈ b.slots, s.offset < s.stop := by
  intro s hs
  obtain ⟨group, takes, -⟩ := (h.grouped names).exists_group hs
  exact takes.nonempty (h.fits s hs)

end Named

/-! ### Every struct -/

/-- **Every struct of some clusters stands for a node.** -/
theorem Shaped.stands {clusters : List Cluster} {slots : List Slot} {blocks : List Block}
    (h : Shaped clusters slots blocks) (emitted : Emitted structs blocks) :
    ∀ b ∈ blocks, ∃ registers clusters, Stands structs b registers clusters := by
  induction h with
  | nil => exact fun b hb => nomatch hb
  | @cons c rest nested _ inner blocks otherBlocks inside own _ ihInner ihRest =>
      intro b hb
      rcases List.mem_append.mp hb with hb | hb
      · cases blocks with
        | nil => cases hb
        | cons first behind =>
            obtain rfl := own.eq_cons
            have emitted : Emitted structs (first :: behind) :=
              fun b' hb' => emitted b' (List.mem_append_left _ hb')
            rcases List.mem_cons.mp hb with rfl | hb
            · exact ⟨_, _, strideOf c, nested, behind, inside, own, emitted⟩
            · exact ihInner (fun b' hb' => emitted b' (List.mem_cons_of_mem _ hb')) b hb
      · exact ihRest (fun b' hb' => emitted b' (List.mem_append_right _ hb')) b hb

end ChipMap.Source
