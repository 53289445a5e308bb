import ChipMap.Proofs.Name.Spelling
import ChipMap.Proofs.Source.Room

/-!
# The shape of a peripheral

Shaping gives out names while it makes slots and structs.  Apart from the names, **what it makes is
read off the map**: `Shaped` says which slots the clusters of a node get and which structs stand
behind them, without a table of names.

### What is load-bearing

The name of every struct has a key that no struct before it has (`Named`), and camel case keeps
keys.  So a name in a member leads to exactly one struct (`shapePeripheral_shaped`).

The table of types is threaded through the whole recursion, and `Shaped` forgets it.  What is lost
are the names that were given out; what is kept of them is `Named`, which two steps in a row have
when each of them has it.  The recursion over clusters is followed once here, and everything later
is an induction over `Shaped`.
-/

namespace ChipMap.Source

open Map (Register Cluster Peripheral Vector)
open Name (Claimed distinctKey)

/-! ### Slots and structs without names -/

/-- The slots of a register, with some type for its fields.  Which type that is does not matter for
its bytes. -/
def RegisterShaped (r : Register) (slots : List Slot) : Prop :=
  ∃ bitfield, slots = arraySlots r.name r.addressOffset (Storage.ofSize r.size).bytes r.vector
    (.register r.access.isReadable r.access.isWritable (Storage.ofSize r.size) bitfield)

/-- **The structs of a node**, when its clusters have the slots `nested` and the structs
`inner`.  A node without a byte has none. -/
inductive BlockShaped (registers : List Register) (stride : Option Nat) (nested : List Slot)
    (inner : List Block) : List Block → Prop
  | empty {own : List (List Slot)} :
    List.Forall₂ RegisterShaped registers own →
      slotsEnd (nameMembers (own.flatten ++ nested)) = 0 →
      BlockShaped registers stride nested inner []
  | block {own : List (List Slot)} {name : String} {size : Nat} {slots : List Slot} :
    List.Forall₂ RegisterShaped registers own → slots = nameMembers (own.flatten ++ nested) →
      slotsEnd slots ≠ 0 → size = paddedSize stride (slotsEnd slots) →
      BlockShaped registers stride nested inner (⟨name, size, slots⟩ :: inner)

/-- The slots of a cluster with the structs `blocks`, of which the first one is its own. -/
def clusterSlots (c : Cluster) : List Block → List Slot
  | [] => []
  | block :: _ => arraySlots c.name c.addressOffset block.size c.vector (.block block.name)

/-- **The slots of some clusters and the structs behind them.** -/
inductive Shaped : List Cluster → List Slot → List Block → Prop
  | nil : Shaped [] [] []
  | cons {c : Cluster} {rest : List Cluster} {nested others : List Slot}
    {inner blocks otherBlocks : List Block} :
    Shaped c.clusters nested inner → BlockShaped c.registers (strideOf c) nested inner blocks →
      Shaped rest others otherBlocks →
      Shaped (c :: rest) (clusterSlots c blocks ++ others) (blocks ++ otherBlocks)

/-! ### Names -/

/-- **Names that are given out are new**: their keys are in the table afterwards and were
not before, and they differ. -/
structure Named (before after : Claimed) (names : List String) : Prop where
  grows : ∀ key ∈ before.keys, key ∈ after.keys
  claimed : ∀ name ∈ names, distinctKey name ∈ after.keys ∧ distinctKey name ∉ before.keys
  distinct : (names.map distinctKey).Nodup

namespace Named

theorem nil (s : Claimed) : Named s s [] where
  grows := fun _ h => h
  claimed := fun _ h => nomatch h
  distinct := List.nodup_nil

theorem append {a b c : Claimed} {xs ys : List String} (first : Named a b xs)
    (second : Named b c ys) : Named a c (xs ++ ys) := by
  refine ⟨fun key h => second.grows key (first.grows key h), ?_, ?_⟩
  · intro x hx
    rcases List.mem_append.mp hx with hx | hx
    · exact ⟨second.grows _ (first.claimed x hx).1, (first.claimed x hx).2⟩
    · exact ⟨(second.claimed x hx).1, fun old => (second.claimed x hx).2 (first.grows _ old)⟩
  · rw [List.map_append]
    refine List.Nodup.append first.distinct second.distinct ?_
    intro key hkey hkey'
    obtain ⟨x, hx, rfl⟩ := List.mem_map.mp hkey
    obtain ⟨y, hy, same⟩ := List.mem_map.mp hkey'
    exact (second.claimed y hy).2 (same ▸ (first.claimed x hx).1)

/-- Names of structs that are left out do not matter: a node without a byte claims a name and drops
it. -/
theorem leaveOut {a b : Claimed} {xs : List String} (h : Named a b xs) : Named a b [] where
  grows := h.grows
  claimed := fun _ h => nomatch h
  distinct := List.nodup_nil

/-- **One claim**: camel case keeps the key. -/
theorem claim (s : Claimed) (path : String) :
    Named s (s.claim path).2 [Name.camelCase (s.claim path).1] := by
  refine ⟨fun _ h => List.mem_cons_of_mem _ h, ?_, List.nodup_singleton _⟩
  intro name hname
  rw [List.mem_singleton.mp hname, Name.isCase_camelCase.key]
  exact ⟨List.mem_cons_self, (s.choose_spec path).2⟩

end Named

/-! ### What shaping makes -/

theorem run_bind {α β : Type} (first : Shaping α) (next : α → Shaping β) (table : TypeTable) :
    (first >>= next).run table = (next (first.run table).1).run (first.run table).2 := rfl

/-- Giving out the name of a struct is one claim. -/
theorem claimStruct_run (path : String) (table : TypeTable) :
    (claimStruct path).run table =
      (Name.camelCase (table.structNames.claim path).1,
        { table with structNames := (table.structNames.claim path).2 }) := rfl

/-- The slots of a register, whatever the table is; no struct gets a name. -/
theorem registerSlots_run (lead : String) (r : Register) (table : TypeTable) :
    RegisterShaped r ((registerSlots lead r).run table).1 ∧
      ((registerSlots lead r).run table).2.structNames = table.structNames := by
  refine ⟨⟨((claimBitfield lead r).run table).1, rfl⟩, ?_⟩
  show ((claimBitfield lead r).run table).2.structNames = table.structNames
  unfold claimBitfield
  split
  · rfl
  · rfl

theorem registers_run (lead : String) (registers : List Register) : ∀ table : TypeTable,
    List.Forall₂ RegisterShaped registers ((registers.mapM (registerSlots lead)).run table).1 ∧
      ((registers.mapM (registerSlots lead)).run table).2.structNames = table.structNames := by
  induction registers with
  | nil =>
      intro table
      exact ⟨.nil, rfl⟩
  | cons r rest ih =>
      intro table
      obtain ⟨slots, kept⟩ := registerSlots_run lead r table
      obtain ⟨others, kept'⟩ := ih ((registerSlots lead r).run table).2
      rw [List.mapM_cons, run_bind, run_bind]
      exact ⟨.cons slots others, kept'.trans kept⟩

/-- What a computation over the clusters of a node makes from every table. -/
def ClustersMade (clusters : List Cluster) (inner : Shaping (List Slot × List Block)) : Prop :=
  ∀ table, Shaped clusters (inner.run table).1.1 (inner.run table).1.2 ∧
    Named table.structNames (inner.run table).2.structNames
      ((inner.run table).1.2.map (·.name))

/-- **The structs of a node** and of the clusters in it. -/
theorem shapeBlock_run {clusters : List Cluster} {inner : Shaping (List Slot × List Block)}
    (made : ClustersMade clusters inner) (path lead : String) (registers : List Register)
    (stride : Option Nat) (table : TypeTable) :
    ∃ nested blocks, Shaped clusters nested blocks ∧
      BlockShaped registers stride nested blocks
        ((shapeBlock path lead registers stride inner).run table).1 ∧
      Named table.structNames
        ((shapeBlock path lead registers stride inner).run table).2.structNames
        (((shapeBlock path lead registers stride inner).run table).1.map (·.name)) := by
  rw [shapeBlock, run_bind, run_bind, run_bind]
  have first : Named table.structNames ((claimStruct path).run table).2.structNames
      [((claimStruct path).run table).1] := by
    simp only [claimStruct_run]
    exact .claim _ path
  generalize (claimStruct path).run table = claimed at first
  obtain ⟨own, kept⟩ := registers_run lead registers claimed.2
  generalize (registers.mapM (registerSlots lead)).run claimed.2 = ownSlots at own kept
  obtain ⟨shaped, named⟩ := made ownSlots.2
  generalize inner.run ownSlots.2 = innerSlots at shaped named
  rw [kept] at named
  refine ⟨innerSlots.1.1, innerSlots.1.2, shaped, ?_⟩
  dsimp only
  split
  · next none => exact ⟨.empty own none, (first.append named).leaveOut⟩
  · next some => exact ⟨.block own rfl some rfl, first.append named⟩

/-- The slots of one cluster and the structs behind them. -/
theorem shapeCluster_run {c : Cluster}
    (made : ∀ path lead : String, ClustersMade c.clusters (shapeClusters path lead c.clusters))
    (path lead : String) (table : TypeTable) :
    ∃ nested inner, Shaped c.clusters nested inner ∧
      BlockShaped c.registers (strideOf c) nested inner ((shapeCluster path lead c).run table).1.2 ∧
      ((shapeCluster path lead c).run table).1.1 =
        clusterSlots c ((shapeCluster path lead c).run table).1.2 ∧
      Named table.structNames ((shapeCluster path lead c).run table).2.structNames
        (((shapeCluster path lead c).run table).1.2.map (·.name)) := by
  obtain ⟨name, description, offset, vector, registers, clusters⟩ := c
  obtain ⟨nested, inner, shaped, block, named⟩ :=
    shapeBlock_run (made (path ++ "_" ++ name) (lead ++ name ++ "_")) (path ++ "_" ++ name)
      (lead ++ name ++ "_") registers (vector.map fun v => v.stride.toNat) table
  refine ⟨nested, inner, shaped, ?_⟩
  rw [shapeCluster, run_bind]
  generalize (shapeBlock (path ++ "_" ++ name) (lead ++ name ++ "_") registers
    (vector.map fun v => v.stride.toNat) (shapeClusters (path ++ "_" ++ name)
      (lead ++ name ++ "_") clusters)).run table = own at block named ⊢
  obtain ⟨blocks, after⟩ := own
  cases blocks with
  | nil => exact ⟨block, rfl, named⟩
  | cons own inner => exact ⟨block, rfl, named⟩

/-- **The slots of some clusters and the structs behind them.** -/
theorem shapeClusters_run (clusters : List Cluster) : ∀ path lead : String,
    ClustersMade clusters (shapeClusters path lead clusters) := by
  induction clusters using Map.clusters_induct with
  | nil =>
      intro path lead table
      exact ⟨.nil, .nil _⟩
  | cons c rest inner others =>
      intro path lead table
      obtain ⟨nested, innerBlocks, shaped, block, slots, named⟩ :=
        shapeCluster_run inner path lead table
      rw [shapeClusters, run_bind, run_bind]
      generalize (shapeCluster path lead c).run table = own at block slots named ⊢
      obtain ⟨shaped', named'⟩ := others path lead own.2
      generalize (shapeClusters path lead rest).run own.2 = later at shaped' named' ⊢
      obtain ⟨⟨ownSlots, ownBlocks⟩, ownTable⟩ := own
      obtain ⟨⟨otherSlots, otherBlocks⟩, after⟩ := later
      obtain rfl : ownSlots = clusterSlots c ownBlocks := slots
      refine ⟨.cons shaped block shaped', ?_⟩
      have fresh := named.append named'
      rw [← List.map_append] at fresh
      exact fresh

theorem shapePeripheral_blocks (p : Peripheral) :
    (shapePeripheral p).blocks =
      ((shapeBlock p.name "" p.registers none (shapeClusters p.name "" p.clusters)).run .empty).1 :=
  rfl

/-- **The shape of a peripheral**: the slots and structs of its registers and clusters, and
a name for each struct. -/
theorem shapePeripheral_shaped (p : Peripheral) :
    ∃ nested inner, Shaped p.clusters nested inner ∧
      BlockShaped p.registers none nested inner (shapePeripheral p).blocks ∧
      ((shapePeripheral p).blocks.map (·.name)).Nodup := by
  obtain ⟨nested, inner, shaped, block, named⟩ :=
    shapeBlock_run (shapeClusters_run p.clusters p.name "") p.name "" p.registers none .empty
  rw [shapePeripheral_blocks]
  exact ⟨nested, inner, shaped, block, named.distinct.of_map _⟩

end ChipMap.Source
