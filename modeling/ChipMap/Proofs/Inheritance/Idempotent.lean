import ChipMap.Proofs.Inheritance.Complete
import ChipMap.Proofs.Inheritance.Establish
import ChipMap.Proofs.Inheritance.Inherits

/-!
# Resolving twice

A description in which no node derives from another is its own resolution (`Underived.resolve_eq`),
and a resolved description is such a one, so **resolution is idempotent** (`resolve_idempotent`).

### What is load-bearing

That no resolved node keeps its reference is a law in the sense of `Laws`: a merged node has none
whatever its base is, and one without a base had none.  It covers copies as well, because what a
level inherits is resolved.

Without references nothing is inherited at any level, so the direct resolution gives every node
back, at the depth of the number of nodes in it (`direct_child_self`).  From there the resolver is
known to find the same, without another look at its memory.
-/

namespace ChipMap.Inheritance

open Description

/-! ### Nodes that derive from nothing -/

/-- **A register that derives from nothing**, and its fields neither.  The fields of a register are
resolved with it. -/
structure RegisterUnderived (r : Register) : Prop where
  own : r.derivedFrom = none
  fields : ∀ f ∈ r.fields, f.derivedFrom = none

/-- No register, cluster or field of a node derives from another, at any depth. -/
def ItemUnderived (item : Item) : Prop :=
  item.All RegisterUnderived fun info => info.derivedFrom = none

/-- **A peripheral that derives from nothing**, and the nodes in it neither. -/
structure PeripheralUnderived (p : Peripheral) : Prop where
  own : p.derivedFrom = none
  children : ∀ c ∈ p.children, ItemUnderived c

/-- **A description in which no node derives from another**, neither a peripheral nor anything
inside one. -/
def Underived (d : Device) : Prop := ∀ p ∈ d.peripherals, PeripheralUnderived p

/-- **The law that a resolved node derives from nothing.**  Nothing is asked of described ones. -/
def Established.underived {α : Type} {derivedFrom : α → Option String} {plain : α → α}
    {orElse : α → α → α} (alone : ∀ a, derivedFrom (plain a) = none)
    (merged : ∀ a b, derivedFrom (orElse a b) = none) :
    Established α derivedFrom plain orElse where
  raw := fun _ => True
  done := fun a => derivedFrom a = none
  alone := fun _ _ => alone _
  behind := fun _ _ => merged _ _
  merge := fun _ _ => merged _ _

/-- No resolved node of any kind derives from another. -/
def underivedLaws : Laws where
  field := .underived (fun _ => rfl) fun _ _ => rfl
  register := .underived (fun _ => rfl) fun _ _ => rfl
  cluster := .underived (fun _ => rfl) fun _ _ => rfl
  peripheral := .underived (fun _ => rfl) fun _ _ => rfl
  withFields h := h
  withChildren h := h

theorem underivedLaws_raw (item : Item) : underivedLaws.RawItem item := by
  induction item using Item.induct with
  | register r => exact .register ⟨trivial, fun _ _ => trivial⟩
  | cluster info children ih => exact .cluster trivial ih

/-- **A resolved description has no references.** -/
theorem resolve_underived {d r : Device} (h : resolve d = .ok r) : Underived r := by
  intro p hp
  have raw : ∀ p ∈ d.peripherals, underivedLaws.RawPeripheral p :=
    fun p _ => ⟨trivial, fun c _ => underivedLaws_raw c⟩
  obtain ⟨own, children⟩ := Laws.resolve_done raw h p hp
  refine ⟨own, fun c hc => (children c hc).mono (fun r h => ?_) fun _ h => h⟩
  exact ⟨h.1, h.2⟩

/-! ### Nothing to resolve -/

/-- Fields that derive from nothing and inherit nothing are resolved. -/
theorem resolveFields_self {path : String} {fields : List Field}
    (h : ∀ f ∈ fields, f.derivedFrom = none) : resolveFields ⟨path, fields, []⟩ = .ok fields := by
  refine mapM_range_eq_ok fun i f found => ?_
  have plain := h f (List.mem_of_getElem? found)
  have same : { f with derivedFrom := none } = f := by rw [← plain]
  rw [resolveField]
  dsimp only
  rw [found]
  dsimp only
  rw [plain]
  dsimp only
  rw [same]
  rfl

/-- A register that derives from nothing and inherits nothing is resolved. -/
theorem resolveRegister_self {r : Register} (h : RegisterUnderived r) (path : String) :
    resolveRegister r none path = .ok r := by
  have same : { r with derivedFrom := none } = r := by rw [← h.own]
  have fields : resolveFields ⟨path, r.fields, ((none : Option Register).map (·.fields)).getD []⟩ =
      .ok r.fields := resolveFields_self h.fields
  rw [resolveRegister, fields]
  exact congrArg Except.ok same

/-- Only its own references give a node a base where nothing is inherited.  So a node without
references has none. -/
theorem itemBase_self {d : Device} {solve : Solvers (Except ReferenceFault)} {level : Level}
    {outer : List Level} (item : Item) (alone : level.inherited = [])
    (plain : item.derivedFrom = none) (path : String) :
    itemBase d solve level outer path item = .ok none := by
  rw [itemBase, referentOf, plain, alone]
  rfl

/-- The children of a level that inherits nothing are those that it has, when each of them is given
back. -/
theorem resolveLevel_self {solve : Solvers (Except ReferenceFault)} {level : Level}
    {outer : List Level} (alone : level.inherited = [])
    (each : ∀ i c, level.own[i]? = some c → solve.child (level :: outer) i = .ok c) :
    resolveLevel solve level outer = .ok level.own := by
  rw [resolveLevel, mapM_range_eq_ok each, alone]
  exact congrArg Except.ok (List.append_nil _)

theorem itemCount_le_of_mem {children : List Item} {c : Item} (h : c ∈ children) :
    itemCount c ≤ itemsCount children := by
  induction children with
  | nil => cases h
  | cons x rest ih =>
      rw [itemsCount]
      rcases List.mem_cons.mp h with rfl | h
      · exact Nat.le_add_right _ _
      · exact (ih h).trans (Nat.le_add_left _ _)

section Steps

variable {d : Device} {solve : Solvers (Except ReferenceFault)} {level : Level} {outer : List Level}

/-- The step of a register that derives from nothing, where nothing is inherited. -/
theorem resolveItem_register_self {r : Register} (alone : level.inherited = [])
    (h : RegisterUnderived r) (place : Place) (path : String) :
    resolveItem d solve level outer place path (.register r) = .ok (.register r) := by
  refine bind_eq_ok.mpr ⟨none, itemBase_self (.register r) alone h.own path, ?_⟩
  exact bind_eq_ok.mpr ⟨r, (ofExcept_eq _).trans (resolveRegister_self h path), rfl⟩

/-- The step of a cluster that derives from nothing, where nothing is inherited. -/
theorem resolveItem_cluster_self {info : ClusterInfo} {children : List Item}
    (alone : level.inherited = []) (own : info.derivedFrom = none) {place : Place} {path : String}
    (inner : resolveLevel solve ⟨place, path, children, []⟩ (level :: outer) = .ok children) :
    resolveItem d solve level outer place path (.cluster info children) =
      .ok (.cluster info children) := by
  have same : { info with derivedFrom := none } = info := by rw [← own]
  refine bind_eq_ok.mpr ⟨none, itemBase_self (.cluster info children) alone own path, ?_⟩
  refine bind_eq_ok.mpr ⟨children, inner, ?_⟩
  exact congrArg (fun info => Except.ok (Item.cluster info children)) same

theorem resolvePeripheralBody_self {i : Nat} {p : Peripheral} (own : p.derivedFrom = none)
    (inner : resolveLevel solve (Level.ofPeripheral i p none) [] = .ok p.children) :
    resolvePeripheralBody d solve i p = .ok p := by
  have base : basePeripheral d solve p = .ok none := by
    rw [basePeripheral, own]
    rfl
  refine bind_eq_ok.mpr ⟨none, base, ?_⟩
  exact bind_eq_ok.mpr ⟨p.children, inner, rfl⟩

end Steps

/-- **The direct resolution gives a node without references back**, at the depth of the number of
nodes in it. -/
theorem direct_child_self (d : Device) (item : Item) (underived : ItemUnderived item) :
    ∀ {n i : Nat} {level : Level} {outer : List Level}, itemCount item ≤ n →
      level.inherited = [] → level.own[i]? = some item →
      (direct d n).child (level :: outer) i = .ok item := by
  induction item using Item.induct with
  | register r =>
      intro n i level outer enough alone found
      obtain ⟨n, rfl⟩ := Nat.exists_eq_succ_of_ne_zero (Nat.one_le_iff_ne_zero.mp enough)
      refine direct_child_ok.mpr ⟨_, found, ?_⟩
      exact resolveItem_register_self alone underived.of_register _ _
  | cluster info children ih =>
      intro n i level outer enough alone found
      obtain ⟨n, rfl⟩ := Nat.exists_eq_succ_of_ne_zero (Nat.one_le_iff_ne_zero.mp
        ((Nat.le_add_left 1 _).trans enough))
      have fewer : itemsCount children ≤ n := Nat.le_of_succ_le_succ enough
      obtain ⟨own, inner⟩ := underived.of_cluster
      refine direct_child_ok.mpr ⟨_, found, resolveItem_cluster_self alone own ?_⟩
      refine resolveLevel_self rfl fun j c hc => ?_
      have member := List.mem_of_getElem? hc
      exact ih c member (inner c member) ((itemCount_le_of_mem member).trans fewer) rfl hc

theorem itemsCount_le_of_mem {d : Device} {p : Peripheral} (h : p ∈ d.peripherals) :
    itemsCount p.children ≤ nodeCount d := by
  unfold nodeCount
  generalize d.peripherals = peripherals at h
  induction peripherals with
  | nil => cases h
  | cons q rest ih =>
      rw [List.foldr_cons]
      rcases List.mem_cons.mp h with rfl | h
      · omega
      · exact (ih h).trans (Nat.le_add_left _ _)

/-- **A description without references is its own resolution.** -/
theorem Underived.resolve_eq {d : Device} (h : Underived d) : resolve d = .ok d := by
  refine resolve_of_direct (n := nodeCount d + 1) (mapM_range_eq_ok fun i p found => ?_)
  have member := List.mem_of_getElem? found
  obtain ⟨own, children⟩ := h p member
  refine direct_peripheral_ok.mpr ⟨p, found, resolvePeripheralBody_self own ?_⟩
  refine resolveLevel_self rfl fun j c hc => ?_
  have inner := List.mem_of_getElem? hc
  have enough := (itemCount_le_of_mem inner).trans (itemsCount_le_of_mem member)
  exact direct_child_self d c (children c inner) enough rfl hc

/-- **Resolution is idempotent**: what it gives has no references, and is its own resolution.  In
particular a second resolution never fails. -/
theorem resolve_idempotent {d r : Device} (h : resolve d = .ok r) :
    Underived r ∧ resolve r = .ok r := by
  have underived := resolve_underived h
  exact ⟨underived, underived.resolve_eq⟩

/-- The second register of the twins takes over a field of the first. -/
theorem resolve_idempotent_twins : resolve twins = .ok twinsResolved ∧
    Underived twinsResolved ∧ resolve twinsResolved = .ok twinsResolved :=
  ⟨resolve_twins, resolve_idempotent resolve_twins⟩

end ChipMap.Inheritance
