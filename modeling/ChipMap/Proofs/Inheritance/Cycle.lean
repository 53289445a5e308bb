import ChipMap.Proofs.Inheritance.Complete
import ChipMap.Proofs.Inheritance.Inherits

/-!
# Cycles that are none

A description in which no node is made of itself should have no cycle.  The resolver reports one all
the same when a path goes through a node that is under way: on the way to a referent it resolves
whole nodes (`Passes`), also those that the node with the reference stands in.

`resolve_cycle_free`: **without such a detour there is no cycle but a real one**, and a description
that resolves has no such detour.  A register that names its sibling by the path from its peripheral
on is one (`resolve_not_cycle_free`).

### What is load-bearing

What has to be resolved for a node is part of what the node is made of, or a path of it goes through
there (`Needs.uses_or_passes`).  So a circle of needs that is no circle of uses has a detour in it
that comes back.  In the other direction a node that has an answer of the direct resolution has one
at a greater depth than all that it needs (`Answered.of_needs`), so nothing that has an answer comes
back to itself.

The last two sections hold two descriptions.  In the first one the references of two peripherals
cross, and nothing is wrong.  In the second one every reference names a node of its kind, and no
node is made of itself; nevertheless a cycle is reported, and the proof goes through all nodes of
the description to say that there is none.
-/

namespace ChipMap.Inheritance

open Description Relation

/-- **A search passes through a node**: it resolves it, and the node is not what it looks for.  This
happens to nodes on the way along a path, and to the base of another peripheral. -/
inductive Passes (d : Device) : Place → Place → Prop
  /-- A node on the way along a path of names. -/
  | onTheWay {q p : Place} {first second : String} {rest : List String} {i : Nat} :
    Looks d q p (first :: second :: rest) → childIndex? d p first = some i →
      Passes d q (p.child i)
  /-- The peripheral that the peripheral at the start of a path derives from. -/
  | base {q : Place} {i j : Nat} {p : Peripheral} {names : List String} {target : String} :
    Leaves d q i names → d.peripherals[i]? = some p → p.derivedFrom = some target →
      peripheralIndex? d target = some j → Passes d q ⟨j, []⟩

/-- **No detour**: a search passes through no node that needs the one it is made for. -/
def DetourFree (d : Device) : Prop := ∀ q b, Passes d q b → ¬ReflTransGen (Needs d) b q

/-! ### Nodes with a need -/

theorem exists_isAt {d : Device} {p : Place} {items : List Item}
    (h : childrenAt? d p = some items) : ∃ kind path, IsAt d p kind path := by
  obtain ⟨i, steps⟩ := p
  induction steps using List.reverseRecOn generalizing items with
  | nil =>
      rw [childrenAt?_peripheral] at h
      obtain ⟨p, found, -⟩ := Option.map_eq_some_iff.mp h
      exact ⟨_, _, .peripheral found⟩
  | append_singleton steps k ih =>
      change childrenAt? d (Place.child ⟨i, steps⟩ k) = some items at h
      rw [childrenAt?_child] at h
      obtain ⟨siblings, hsiblings, h⟩ := Option.bind_eq_some_iff.mp h
      obtain ⟨item, found, -⟩ := Option.map_eq_some_iff.mp h
      obtain ⟨kind, path, outside⟩ := ih hsiblings
      exact ⟨_, _, .child outside hsiblings found⟩

theorem Looks.isAt {d : Device} {q p : Place} {names : List String} (h : Looks d q p names) :
    ∃ kind path, IsAt d q kind path := by
  obtain ⟨levels, names, refs⟩ := h.references
  cases refs with
  | mk chain found _ => exact ⟨_, _, chain.child_isAt found⟩

theorem DrawsOn.isAt {d : Device} {q b : Place} (h : DrawsOn d q b) :
    ∃ kind path, IsAt d q kind path := by
  cases h with
  | referent refers => exact refers.isAt
  | counterpart items found _ _ =>
      obtain ⟨kind, path, outside⟩ := exists_isAt items
      exact ⟨_, _, .child outside items found⟩

/-- Who draws on a node has a reference, or a node around has one.  The proof follows the recursion
of the relation. -/
theorem DrawsOn.from_reference {d : Device} {H : Place → Prop}
    (refers : ∀ q b, Refers d q b → H q)
    (inward : ∀ p items i, H p → childrenAt? d p = some items → i < items.length →
      H (p.child i)) :
    ∀ {q b : Place}, DrawsOn d q b → H q
  | q, b, .referent refers' => refers q b refers'
  | _, _, .counterpart items found draws _ =>
      inward _ _ _ (draws.from_reference refers inward) items
        (List.getElem?_eq_some_iff.mp found).1

theorem Uses.isAt {d : Device} {q b : Place} (h : Uses d q b) :
    ∃ kind path, IsAt d q kind path := by
  cases h with
  | child items _ => exact exists_isAt items
  | draws draws => exact draws.isAt

theorem Passes.isAt {d : Device} {q b : Place} (h : Passes d q b) :
    ∃ kind path, IsAt d q kind path := by
  cases h with
  | onTheWay looks _ => exact looks.isAt
  | base leaves _ _ _ => exact (Looks.elsewhere leaves).isAt

/-- **No node of a description that resolves is made of itself.** -/
theorem Uses.not_cyclic {d r : Device} (h : resolve d = .ok r) {q : Place} :
    ¬TransGen (Uses d) q q := by
  intro circle
  obtain ⟨c, first, -⟩ := TransGen.head'_iff.mp circle
  obtain ⟨kind, path, at_⟩ := first.isAt
  exact not_cyclic_of_acc (grounded_of_resolve h at_) circle

/-! ### Needs -/

/-- **What has to be resolved for a node** is part of what the node is made of, or its search passes
through there. -/
theorem Needs.uses_or_passes {d : Device} {q b : Place} (h : Needs d q b) :
    Uses d q b ∨ Passes d q b := by
  cases h with
  | child items inside => exact .inl (.child items inside)
  | base found derived index => exact .inl (.draws (.referent (.peripheral found derived index)))
  | @named _ p first rest i looks index =>
      cases rest with
      | nil => exact .inl (.draws (.referent (.node looks (.own index .here))))
      | cons second rest => exact .inr (.onTheWay looks index)
  | baseElsewhere leaves found derived index => exact .inr (.base leaves found derived index)

theorem Passes.needs {d : Device} {q b : Place} (h : Passes d q b) : Needs d q b := by
  cases h with
  | onTheWay looks index => exact .named looks index
  | base leaves found derived index => exact .baseElsewhere leaves found derived index

/-- A path without a dot passes through no node, so references by simple names never make a
detour. -/
theorem Passes.dotted {d : Device} {q b : Place} (h : Passes d q b) :
    ∃ levels first second rest, References d q levels (first :: second :: rest) := by
  have of_leaves {j : Nat} {names : List String} (leaves : Leaves d q j names) :
      ∃ levels first second rest, References d q levels (first :: second :: rest) := by
    cases leaves with
    | mk refs _ _ _ => exact ⟨_, _, _, _, refs⟩
  cases h with
  | onTheWay looks _ =>
      cases looks with
      | around refs _ => exact ⟨_, _, _, _, refs⟩
      | root refs _ _ _ => exact ⟨_, _, _, _, refs⟩
      | elsewhere leaves => exact of_leaves leaves
  | base leaves _ _ _ => exact of_leaves leaves

/-- Walks of two kinds of steps: one of the first kind alone, or one that takes a step of the second
kind and goes on. -/
theorem transGen_or_exists {α : Type} {R U V : α → α → Prop} (split : ∀ x y, R x y → U x y ∨ V x y)
    {x y : α} (walk : TransGen R x y) :
    TransGen U x y ∨ ∃ p b, ReflTransGen R x p ∧ V p b ∧ ReflTransGen R b y := by
  induction walk with
  | @single y step =>
      rcases split x y step with u | v
      · exact .inl (.single u)
      · exact .inr ⟨x, y, .refl, v, .refl⟩
  | @tail y z before step ih =>
      rcases ih with u | ⟨p, b, left, v, right⟩
      · rcases split y z step with last | v
        · exact .inl (u.tail last)
        · exact .inr ⟨y, z, before.to_reflTransGen, v, .refl⟩
      · exact .inr ⟨p, b, left, v, right.tail step⟩

/-- A chain of at least two entries that ends where it begins. -/
theorem exists_transGen_of_isChain {α : Type} {R : α → α → Prop} {entries : List α}
    (long : 2 ≤ entries.length) (ends : entries.head? = entries.getLast?)
    (chain : entries.IsChain R) : ∃ x ∈ entries, TransGen R x x := by
  match entries, long with
  | x :: y :: rest, _ =>
      obtain ⟨first, walk⟩ := List.isChain_cons_cons.mp chain
      have last : (y :: rest).getLast (List.cons_ne_nil y rest) = x := by
        have shown := List.getLast?_eq_getLast_of_ne_nil (List.cons_ne_nil y rest)
        rw [List.getLast?_cons_cons, shown] at ends
        exact (Option.some.inj ends).symm
      have back := List.relationReflTransGen_of_exists_isChain_cons rest walk last
      exact ⟨x, List.mem_cons_self, .head' first back⟩

/-- **A circle of needs has a detour in it**, when it is no circle of uses. -/
theorem DetourFree.not_cyclic {d : Device} (clear : DetourFree d)
    (nodes : ∀ q, ¬TransGen (Uses d) q q) {q : Place} : ¬TransGen (Needs d) q q := by
  intro circle
  rcases transGen_or_exists (fun _ _ => Needs.uses_or_passes) circle with uses | detour
  · exact nodes q uses
  · obtain ⟨p, b, left, passes, right⟩ := detour
    exact clear p b passes (right.trans left)

/-! ### What a description that resolves needs

Depth is the measure here.  An answer at some depth was made from answers at less depth, and all
that a node needs is among them. -/

namespace Answered

variable {d : Device} {n : Nat}

theorem exists_pred {p : Place} (h : Answered d n p) : ∃ k, n = k + 1 := by
  cases n with
  | succ k => exact ⟨k, rfl⟩
  | zero =>
      cases h with
      | peripheral found => cases found
      | child _ found => cases found

/-- The children of a level that resolves are answered, each at the depth at which the level asked
for it. -/
theorem of_resolveLevel {level : Level} {outer : List Level} (chain : Chain d (level :: outer))
    {scope : List Item} (run : resolveLevel (direct d n) level outer = .ok scope) {i : Nat}
    (inside : i < level.own.length) : Answered d n (level.place.child i) := by
  obtain ⟨kept, -, each⟩ := resolveLevel_ok run
  obtain ⟨x, -, resolved⟩ := getElem?_of_range each inside
  exact .child chain resolved

/-- What a peripheral needs is answered when the peripheral resolves. -/
theorem of_peripheral {i : Nat} {p q : Peripheral} (found : d.peripherals[i]? = some p)
    (run : resolvePeripheralBody d (direct d n) i p = .ok q) {b : Place}
    (needs : Needs d ⟨i, []⟩ b) : Answered d n b := by
  obtain ⟨base, children, hbase, hchildren, -⟩ := resolvePeripheralBody_ok run
  generalize place : (⟨i, []⟩ : Place) = at_ at needs
  cases needs with
  | child items inside =>
      subst place
      obtain rfl : p.children = _ := by simpa [found] using items
      exact of_resolveLevel (.ofPeripheral found hbase) hchildren inside
  | base found' derived index =>
      obtain ⟨rfl, -⟩ := Place.mk.inj place
      obtain rfl := Option.some.inj (found.symm.trans found')
      obtain ⟨base, resolved⟩ := peripheral_of_basePeripheral hbase derived index
      exact .peripheral resolved
  | named looks _ =>
      obtain ⟨_, _, refs⟩ := looks.references
      exact absurd (place ▸ refs) References.not_peripheral
  | baseElsewhere leaves _ _ _ =>
      cases leaves with
      | mk refs _ _ _ => exact absurd (place ▸ refs) References.not_peripheral

/-- What a register or cluster needs is answered when it resolves. -/
theorem of_item {level : Level} {outer : List Level} (chain : Chain d (level :: outer)) {i : Nat}
    {item x : Item} (found : level.own[i]? = some item)
    (run : resolveItem d (direct d n) level outer (level.place.child i)
      (childPath level.path item.name) item = .ok x) {b : Place}
    (needs : Needs d (level.place.child i) b) : Answered d n b := by
  obtain ⟨base, hbase, run⟩ := bind_eq_ok.mp run
  obtain ⟨referent, hreferent, -⟩ := bind_eq_ok.mp hbase
  generalize place : level.place.child i = at_ at needs
  cases needs with
  | @child _ items k hitems inside =>
      subst place
      obtain rfl : item.children = items := by simpa [chain.isAt.1, found] using hitems
      cases item with
      | register own => cases inside
      | cluster own children =>
          obtain ⟨resolved, hresolved, -⟩ := bind_eq_ok.mp run
          exact of_resolveLevel (.ofCluster chain found hbase) hresolved inside
  | base _ _ _ => exact absurd place Place.child_ne_peripheral
  | named looks index =>
      subst place
      obtain ⟨l, o, y, rfl, reached, run⟩ := looks.ran chain found hreferent
      obtain ⟨x, resolved⟩ := child_of_followFrom (reached.chain chain) run index
      exact .child (reached.chain chain) resolved
  | baseElsewhere leaves found' derived index =>
      subst place
      obtain ⟨q, base, y, hq, hbase, -⟩ := leaves.ran chain found hreferent
      obtain rfl := Option.some.inj (hq.symm.trans found')
      obtain ⟨q', resolved⟩ := peripheral_of_basePeripheral hbase derived index
      exact .peripheral resolved

/-- **What an answered node needs is answered at less depth.** -/
theorem of_needs {q b : Place} (h : Answered d n q) (needs : Needs d q b) :
    ∃ k < n, Answered d k b := by
  obtain ⟨k, rfl⟩ := h.exists_pred
  refine ⟨k, Nat.lt_succ_self k, ?_⟩
  cases h with
  | peripheral resolved =>
      obtain ⟨p, found, run⟩ := direct_peripheral_ok.mp resolved
      exact of_peripheral found run needs
  | child chain resolved =>
      obtain ⟨item, found, run⟩ := direct_child_ok.mp resolved
      exact of_item chain found run needs

/-- **An answered node does not come back to itself** along its needs. -/
theorem not_cyclic {q : Place} (h : Answered d n q) : ¬TransGen (Needs d) q q := by
  refine not_cyclic_of_acc ?_
  induction n using Nat.strong_induction_on generalizing q with
  | _ n ih =>
      refine .intro q fun b needs => ?_
      obtain ⟨k, less, answered⟩ := h.of_needs needs
      exact ih k less answered

end Answered

/-- **In a description that resolves every node is answered**, at some depth of its own. -/
theorem answered_of_resolve {d r : Device} (h : resolve d = .ok r) {p : Place} {kind : ItemKind}
    {path : String} (at_ : IsAt d p kind path) : ∃ n, Answered d n p := by
  induction at_ with
  | peripheral found =>
      obtain ⟨-, n, all⟩ := resolve_direct h
      obtain ⟨q, -, resolved⟩ := getElem?_of_range all (List.getElem?_eq_some_iff.mp found).1
      exact ⟨n, .peripheral resolved⟩
  | child _ items found ih =>
      obtain ⟨n, answered⟩ := ih
      obtain ⟨k, -, answered⟩ :=
        answered.of_needs (.child items (List.getElem?_eq_some_iff.mp found).1)
      exact ⟨k, answered⟩

/-- A description that resolves has no detour. -/
theorem detourFree_of_resolve {d r : Device} (h : resolve d = .ok r) : DetourFree d := by
  intro q b passes back
  obtain ⟨kind, path, at_⟩ := passes.isAt
  obtain ⟨n, answered⟩ := answered_of_resolve h at_
  exact answered.not_cyclic (.head' passes.needs back)

/-! ### Cycles -/

/-- A circle of fields is one of references. -/
theorem FieldCircle.cyclic {d : Device} {q : Place} {r : Register} (at_ : RegisterAt d q r)
    {path : String} {chain : List String} (h : FieldCircle path r.fields chain) :
    ∃ k, TransGen (FieldRefers d) (q, k) (q, k) := by
  obtain ⟨numbers, long, ends, walk, -⟩ := h
  obtain ⟨k, -, circle⟩ := exists_transGen_of_isChain long ends walk
  refine ⟨k, circle.lift (fun k => (q, k)) fun i j needs => ?_⟩
  obtain ⟨f, target, found, derived, index⟩ := needs
  exact .mk at_ found derived (.own at_ index)

/-- **A cycle that is reported is a circle**: of fields by their references, or of nodes by their
needs. -/
theorem Circle.cyclic {d : Device} {kind : ItemKind} {chain : List String}
    (h : Circle d kind chain) :
    (∃ q, TransGen (Needs d) q q) ∨ ∃ field, TransGen (FieldRefers d) field field := by
  cases h with
  | nodes long ends walk _ _ =>
      obtain ⟨q, -, circle⟩ := exists_transGen_of_isChain long ends walk
      exact .inl ⟨q, circle⟩
  | fields items found _ circle =>
      obtain ⟨_, _, outside⟩ := exists_isAt items
      obtain ⟨k, circle⟩ := circle.cyclic (.mk outside items found)
      exact .inr ⟨_, circle⟩

/-- **A description without circles has no cycle when it has no detour**, and without detours is
every description that resolves. -/
theorem resolve_cycle_free {d : Device} (nodes : ∀ q, ¬TransGen (Uses d) q q)
    (fields : ∀ field, ¬TransGen (FieldRefers d) field field) :
    (DetourFree d → ∀ kind chain, resolve d ≠ .error (.cycle kind chain)) ∧
      ((∃ r, resolve d = .ok r) → DetourFree d) := by
  refine ⟨fun clear kind chain fault => ?_, fun ⟨r, h⟩ => detourFree_of_resolve h⟩
  rcases (circle_of_resolve fault).cyclic with ⟨q, circle⟩ | ⟨field, circle⟩
  · exact clear.not_cyclic nodes circle
  · exact fields field circle

/-! ### Peripherals that name registers of each other

Each register here waits for one of the other peripheral, but the two peripherals do not wait for
each other as wholes: a path goes through a peripheral without resolving it. -/

/-- Two peripherals with these registers. -/
def facing (p q : List Register) : Device :=
  { oneBlock p with
    peripherals := (oneBlock p).peripherals ++
      (oneBlock q).peripherals.map fun block => { block with name := "Q" } }

/-- Two peripherals, each with a register that derives from one of the other. -/
def crossed : Device :=
  facing [plainRegister "A" 0 none [], plainRegister "B" 4 (some "Q.A") []]
    [plainRegister "A" 0 none [], plainRegister "B" 4 (some "P.A") []]

theorem exists_resolve_crossed : ∃ r, resolve crossed = .ok r := ⟨_, rfl⟩

theorem resolve_cycle_free_crossed :
    ((∀ q, ¬TransGen (Uses crossed) q q) ∧
      ∀ field, ¬TransGen (FieldRefers crossed) field field) ∧
        DetourFree crossed ∧ ∀ kind chain, resolve crossed ≠ .error (.cycle kind chain) := by
  obtain ⟨r, h⟩ := exists_resolve_crossed
  have nodes : ∀ q, ¬TransGen (Uses crossed) q q := fun q => Uses.not_cyclic h
  have fields : ∀ field, ¬TransGen (FieldRefers crossed) field field :=
    fun field => FieldRefers.not_cyclic h
  obtain ⟨real, clear⟩ := resolve_cycle_free nodes fields
  exact ⟨⟨nodes, fields⟩, clear exists_resolve_crossed, real (clear exists_resolve_crossed)⟩

/-! ### A register that names its sibling from outside

The path `P.C.A` leads from the peripheral through the cluster to the register.  The cluster is
resolved on the way, and while it is resolved the register that holds the path is under way. -/

/-- **Every reference names a node of its kind.**  So nothing is wrong with the references of such a
description one by one. -/
structure WellReferenced (d : Device) : Prop where
  peripherals : ∀ p ∈ d.peripherals, ∀ target ∈ p.derivedFrom,
    ∃ j, peripheralIndex? d target = some j
  items : ∀ p items i item, childrenAt? d p = some items → items[i]? = some item →
    ∀ target ∈ item.derivedFrom, ∃ c path, Refers d (p.child i) c ∧ IsAt d c item.kind path
  fields : ∀ q r, RegisterAt d q r → ∀ f ∈ r.fields, ∀ target ∈ f.derivedFrom,
    ∃ field, LeadsToField d q target field

/-- A cluster of which nothing but its place is said. -/
def plainCluster (name : String) (offset : Word) : ClusterInfo where
  name := name
  derivedFrom := none
  description := none
  headerStructName := none
  addressOffset := some offset
  properties := .empty
  dimension := none

/-- The registers of a cluster, the second of which derives from the first, by this path. -/
def pair (target : String) : List Item :=
  [.register (plainRegister "A" 0 none []), .register (plainRegister "B" 4 (some target) [])]

/-- A peripheral with one cluster of such registers. -/
def clusterBlock (target : String) : Peripheral :=
  { barePeripheral "P" "" with
    derivedFrom := none
    baseAddress := some 0
    children := [.cluster (plainCluster "C" 0) (pair target)] }

/-- A device with one such peripheral. -/
def clustered (target : String) : Device :=
  { oneBlock [] with peripherals := [clusterBlock target] }

-- By its name the sibling is found, by the path from the peripheral on it is not.
example : (resolve (clustered "A")).isOk = true := by rfl

theorem resolve_clustered :
    resolve (clustered "P.C.A") = .error (.cycle .cluster ["P.C", "P.C.B", "P.C"]) := by rfl

namespace Clustered

/-- The children of the peripheral. -/
def outside : Level := Level.ofPeripheral 0 (clusterBlock "P.C.A") none

/-- The children of the cluster. -/
def inside : Level := ⟨⟨0, [0]⟩, "P.C", pair "P.C.A", []⟩

theorem chain_outside : Chain (clustered "P.C.A") [outside] :=
  .ofPeripheral (n := 0) (p := clusterBlock "P.C.A") rfl rfl

theorem chain_inside : Chain (clustered "P.C.A") [inside, outside] := by
  have cluster : outside.own[0]? = some (.cluster (plainCluster "C" 0) (pair "P.C.A")) := rfl
  have base : itemBase (clustered "P.C.A") (direct (clustered "P.C.A") 0) outside []
      (childPath outside.path "C") (.cluster (plainCluster "C" 0) (pair "P.C.A")) = .ok none := rfl
  exact .ofCluster chain_outside cluster base

theorem first : inside.own[0]? = some (.register (plainRegister "A" 0 none [])) := rfl

theorem second : inside.own[1]? = some (.register (plainRegister "B" 4 (some "P.C.A") [])) := rfl

theorem places : placesFrom 0 (clustered "P.C.A").peripherals =
    [⟨0, []⟩, ⟨0, [0]⟩, ⟨0, [0, 0]⟩, ⟨0, [0, 1]⟩] := by rfl

theorem place_cases {p : Place} {items : List Item}
    (h : childrenAt? (clustered "P.C.A") p = some items) :
    p = outside.place ∧ items = outside.own ∨ p = inside.place ∧ items = inside.own ∨
      items = [] := by
  obtain ⟨kind, path, at_⟩ := exists_isAt h
  have taken := at_.mem_places.1
  rw [places] at taken
  simp only [List.mem_cons, List.not_mem_nil, or_false] at taken
  rcases taken with rfl | rfl | rfl | rfl
  · exact .inl ⟨rfl, (Option.some.inj h).symm⟩
  · exact .inr (.inl ⟨rfl, (Option.some.inj h).symm⟩)
  · exact .inr (.inr (Option.some.inj h).symm)
  · exact .inr (.inr (Option.some.inj h).symm)

theorem references_cases {q : Place} {levels : List Level} {names : List String}
    (h : References (clustered "P.C.A") q levels names) :
    q = inside.place.child 1 ∧ levels = [inside, outside] ∧ names = ["P", "C", "A"] := by
  cases h with
  | @mk level outer i item target chain found derived =>
      rcases place_cases chain.isAt.1 with ⟨place, own⟩ | ⟨place, own⟩ | own
      · -- The cluster has no reference.
        rw [own] at found
        match i, found with
        | 0, found =>
            obtain rfl := Option.some.inj found
            cases derived
      · rw [own] at found
        match i, found with
        | 0, found =>
            obtain rfl := Option.some.inj found
            cases derived
        | 1, found =>
            obtain rfl := Option.some.inj found
            obtain rfl := Option.some.inj derived
            exact ⟨congrArg (Place.child · 1) place, chain.unique chain_inside place, rfl⟩
      · rw [own] at found
        cases found

theorem drawsOn_place {q b : Place} (h : DrawsOn (clustered "P.C.A") q b) :
    q = inside.place.child 1 := by
  refine h.from_reference (H := fun q => q = inside.place.child 1) (fun q b refers => ?_) ?_
  · cases refers with
    | @peripheral i _ _ _ found derived _ =>
        cases i with
        | zero =>
            obtain rfl := Option.some.inj found
            cases derived
        | succ i => cases found
    | node looks _ =>
        obtain ⟨levels, names, refs⟩ := looks.references
        exact (references_cases refs).1
  · rintro _ items i rfl hitems within
    obtain rfl : [] = items := Option.some.inj hitems
    cases within

/-- A walk from a node that draws on nothing begins with a child of the node. -/
theorem walks_own {p c : Place} {first : String} {rest : List String}
    (h : Walks (clustered "P.C.A") p (first :: rest) c) (alone : p ≠ inside.place.child 1) :
    ∃ i, childIndex? (clustered "P.C.A") p first = some i ∧
      Walks (clustered "P.C.A") (p.child i) rest c := by
  cases h with
  | own index rest => exact ⟨_, index, rest⟩
  | inherited _ draws _ => exact absurd (drawsOn_place draws) alone

/-- From both levels around no name leads to the peripheral. -/
theorem walks_away {level : Level} {outer : List Level}
    (around : level :: outer <:+ [inside, outside]) {c : Place} {rest : List String} :
    ¬Walks (clustered "P.C.A") level.place ("P" :: rest) c := by
  intro walks
  have cases_ : level = inside ∨ level = outside := by
    simpa using around.subset List.mem_cons_self
  rcases cases_ with rfl | rfl
  · obtain ⟨i, index, -⟩ := walks_own walks (by decide)
    cases index
  · obtain ⟨i, index, -⟩ := walks_own walks (by decide)
    cases index

/-- **The second register draws on the first**, and that is all. -/
theorem drawsOn_cases {q b : Place} (h : DrawsOn (clustered "P.C.A") q b) :
    q = inside.place.child 1 ∧ b = inside.place.child 0 := by
  obtain rfl := drawsOn_place h
  refine ⟨rfl, ?_⟩
  rcases h.of_child with ⟨c, first, rest, looks, walks⟩ | ⟨a, name, parent, -⟩
  · cases looks with
    | around refs comes =>
        obtain ⟨-, rfl, names⟩ := references_cases refs
        obtain ⟨rfl, rfl⟩ := List.cons.inj names
        exact absurd walks (walks_away comes.suffix)
    | @root level levels name _ refs comes _ _ =>
        obtain ⟨-, rfl, names⟩ := references_cases refs
        obtain ⟨-, names⟩ := List.cons.inj names
        obtain ⟨rfl, rfl⟩ := List.cons.inj names
        -- The search has come to the last level: the path goes on from the peripheral.
        obtain rfl : level = outside := by
          have last := comes.suffix.getLast (List.cons_ne_nil _ _)
          simpa using last
        obtain ⟨i, index, walks⟩ := walks_own walks (by decide)
        obtain rfl : 0 = i := Option.some.inj index
        obtain ⟨i, index, walks⟩ := walks_own walks (by decide)
        obtain rfl : 0 = i := Option.some.inj index
        cases walks
        rfl
    | elsewhere leaves =>
        cases leaves with
        | mk refs _ other _ =>
            obtain ⟨-, rfl, names⟩ := references_cases refs
            obtain ⟨rfl, -⟩ := List.cons.inj names
            exact absurd rfl other
  · exact absurd (drawsOn_place parent) (by decide)

/-- How far down a node is made of others.  It falls along every use, so no node is made of
itself. -/
def rank : Place → Nat
  | ⟨_, []⟩ => 3
  | ⟨_, [_]⟩ => 2
  | ⟨_, [0, 1]⟩ => 1
  | _ => 0

/-- What a node is made of stands further down. -/
theorem rank_lt {q b : Place} (h : Uses (clustered "P.C.A") q b) : rank b < rank q := by
  cases h with
  | @child items i hitems within =>
      rcases place_cases hitems with ⟨rfl, rfl⟩ | ⟨rfl, rfl⟩ | rfl
      · match i, within with
        | 0, _ => decide
      · match i, within with
        | 0, _ => decide
        | 1, _ => decide
      · cases within
  | draws draws =>
      obtain ⟨rfl, rfl⟩ := drawsOn_cases draws
      decide

theorem nodes (q : Place) : ¬TransGen (Uses (clustered "P.C.A")) q q :=
  not_cyclic_of_acc (Subrelation.accessible rank_lt ((measure rank).wf.apply q))

theorem fields_nil {q : Place} {r : Register} (h : RegisterAt (clustered "P.C.A") q r) :
    r.fields = [] := by
  cases h with
  | @mk p _ _ items i _ _ hitems found =>
      rcases place_cases hitems with ⟨rfl, rfl⟩ | ⟨rfl, rfl⟩ | rfl
      · match i, found with
        | 0, found => cases found
      · match i, found with
        | 0, found =>
            cases found
            rfl
        | 1, found =>
            cases found
            rfl
      · cases found

theorem fields (field : Place × Nat) : ¬TransGen (FieldRefers (clustered "P.C.A")) field field := by
  intro circle
  obtain ⟨other, first, -⟩ := TransGen.head'_iff.mp circle
  cases first with
  | mk at_ found _ _ =>
      rw [fields_nil at_] at found
      cases found

/-- The path of the second register leads to the first. -/
theorem refers : Refers (clustered "P.C.A") (inside.place.child 1) (inside.place.child 0) := by
  have refs : References (clustered "P.C.A") (inside.place.child 1) [inside, outside]
      ["P", "C", "A"] := .mk chain_inside second rfl
  have comes : Comes (clustered "P.C.A") ["P", "C", "A"] [inside, outside] [outside] :=
    .further ⟨0, rfl⟩ .here
  exact .node (.root refs comes ⟨0, rfl⟩ rfl) (.own (i := 0) rfl (.own (i := 0) rfl .here))

theorem wellReferenced : WellReferenced (clustered "P.C.A") where
  peripherals p hp target derived := by
    obtain rfl := List.mem_singleton.mp hp
    cases derived
  items p items i item hitems found target derived := by
    rcases place_cases hitems with ⟨rfl, rfl⟩ | ⟨rfl, rfl⟩ | rfl
    · match i, found with
      | 0, found =>
          obtain rfl := Option.some.inj found
          cases derived
    · match i, found with
      | 0, found =>
          obtain rfl := Option.some.inj found
          cases derived
      | 1, found =>
          obtain rfl := Option.some.inj found
          have at_ := chain_inside.child_isAt first
          exact ⟨_, _, refers, at_⟩
    · cases found
  fields q r at_ f hf := by
    rw [fields_nil at_] at hf
    cases hf

end Clustered

/-- **A cycle may be reported where there is none**: a register names its sibling by the path from
the peripheral on. -/
theorem resolve_not_cycle_free : ¬ ∀ d, WellReferenced d → (∀ q, ¬TransGen (Uses d) q q) →
    (∀ field, ¬TransGen (FieldRefers d) field field) →
      ∀ kind chain, resolve d ≠ .error (.cycle kind chain) := by
  intro all
  exact all _ Clustered.wellReferenced Clustered.nodes Clustered.fields _ _ resolve_clustered

end ChipMap.Inheritance
