import ChipMap.Proofs.Description.Item
import ChipMap.Proofs.Inheritance.Direct
import Mathlib.Data.List.Perm.Subperm

/-!
# The nodes of a description by their places

A place is a number of a peripheral with the numbers of the children that lead from there to a node.
`IsAt` says which node stands at a place, with its kind and the path that faults show.  **No more
places are taken than there are nodes** (`length_le_nodeCount`), and the levels of a resolution hold
the described children of their places (`Chain.isAt`, `Chain.child_isAt`).

### What is load-bearing

Places tell nodes apart where paths do not: two children of one name have one path and two places.
What is under way is compared by place for this reason.

Nodes are counted by listing the places that they take, in the order of the description
(`itemPlaces`).  The list is as long as the number of nodes, and every node takes a place in it, so
a list of distinct places is no longer.
-/

namespace ChipMap.Inheritance

open Description

/-! ### Children at a place -/

/-- The children that numbers lead to, from a node with these children.  A register has none. -/
def childrenIn (children : List Item) : List Nat → Option (List Item)
  | [] => some children
  | i :: rest => children[i]?.bind fun item => childrenIn item.children rest

/-- The described children of the node at a place. -/
def childrenAt? (d : Device) (p : Place) : Option (List Item) :=
  d.peripherals[p.peripheral]?.bind fun q => childrenIn q.children p.steps

theorem childrenIn_append (children : List Item) (steps : List Nat) (i : Nat) :
    childrenIn children (steps ++ [i]) =
      (childrenIn children steps).bind fun items => items[i]?.map (·.children) := by
  induction steps generalizing children with
  | nil => cases h : children[i]? <;> simp [childrenIn, h]
  | cons k rest ih =>
      rw [List.cons_append, childrenIn, childrenIn]
      cases children[k]? with
      | none => rfl
      | some item => exact ih item.children

@[simp] theorem childrenAt?_peripheral (d : Device) (i : Nat) :
    childrenAt? d ⟨i, []⟩ = d.peripherals[i]?.map (·.children) := by
  rw [childrenAt?]
  cases d.peripherals[i]? <;> rfl

@[simp] theorem childrenAt?_child (d : Device) (p : Place) (i : Nat) :
    childrenAt? d (p.child i) =
      (childrenAt? d p).bind fun items => items[i]?.map (·.children) := by
  rw [childrenAt?, childrenAt?, Place.child]
  cases d.peripherals[p.peripheral]? with
  | none => rfl
  | some q => exact childrenIn_append q.children p.steps i

/-- **The node at a place**, with its kind and its path.  The constructors go from a node to its
children. -/
inductive IsAt (d : Device) : Place → ItemKind → String → Prop
  | peripheral {i : Nat} {p : Peripheral} :
    d.peripherals[i]? = some p → IsAt d ⟨i, []⟩ .peripheral p.name
  | child {p : Place} {kind : ItemKind} {path : String} {items : List Item} {i : Nat}
    {item : Item} :
    IsAt d p kind path → childrenAt? d p = some items → items[i]? = some item →
      IsAt d (p.child i) item.kind (childPath path item.name)

theorem Place.child_ne_peripheral {p : Place} {i j : Nat} : p.child i ≠ ⟨j, []⟩ := by
  intro h
  have := congrArg (fun q => q.steps.length) h
  simp [Place.child] at this

theorem IsAt.path_unique {d : Device} {p : Place} {kind kind' : ItemKind} {path path' : String}
    (h : IsAt d p kind path) (h' : IsAt d p kind' path') : path = path' := by
  induction h generalizing kind' path' with
  | peripheral found =>
      generalize hp : (⟨_, []⟩ : Place) = place at h'
      cases h' with
      | peripheral found' =>
          obtain ⟨rfl, -⟩ := Place.mk.inj hp
          rw [Option.some.inj (found.symm.trans found')]
      | child _ _ _ => exact absurd hp.symm Place.child_ne_peripheral
  | child outer items found ih =>
      generalize hp : Place.child _ _ = place at h'
      cases h' with
      | peripheral _ => exact absurd hp Place.child_ne_peripheral
      | child outer' items' found' =>
          obtain ⟨rfl, rfl⟩ := Place.child_inj.mp hp
          obtain rfl := Option.some.inj (items.symm.trans items')
          rw [Option.some.inj (found.symm.trans found'), ih outer']

/-! ### Counting -/

mutual

/-- The places that a child at a place takes: its own and those of the nodes inside it. -/
def itemPlaces (p : Place) : Item → List Place
  | .register _ => [p]
  | .cluster _ children => p :: itemsPlaces p 0 children

/-- The places that the children of a node at a place take, from the child with the number
`i` on. -/
def itemsPlaces (p : Place) (i : Nat) : List Item → List Place
  | [] => []
  | item :: rest => itemPlaces (p.child i) item ++ itemsPlaces p (i + 1) rest

end

/-- The places that a peripheral with the number `i` takes, its own first. -/
def peripheralPlaces (i : Nat) (p : Peripheral) : List Place :=
  ⟨i, []⟩ :: itemsPlaces ⟨i, []⟩ 0 p.children

/-- The places of all nodes of some peripherals, the first of which has the number `i`. -/
def placesFrom (i : Nat) : List Peripheral → List Place
  | [] => []
  | p :: rest => peripheralPlaces i p ++ placesFrom (i + 1) rest

theorem length_itemsPlaces_of {children : List Item}
    (each : ∀ c ∈ children, ∀ p, (itemPlaces p c).length = itemCount c) (p : Place) (i : Nat) :
    (itemsPlaces p i children).length = itemsCount children := by
  induction children generalizing i with
  | nil => simp [itemsPlaces, itemsCount]
  | cons c rest ih =>
      have others := ih (fun c hc => each c (List.mem_cons_of_mem _ hc)) (i + 1)
      rw [itemsPlaces, itemsCount, List.length_append, each c List.mem_cons_self, others]

theorem length_itemPlaces (item : Item) : ∀ p, (itemPlaces p item).length = itemCount item := by
  induction item using Item.induct with
  | register r => simp [itemPlaces, itemCount]
  | cluster info children ih =>
      intro p
      rw [itemPlaces, itemCount, List.length_cons, length_itemsPlaces_of ih]

theorem length_placesFrom (peripherals : List Peripheral) (i : Nat) :
    (placesFrom i peripherals).length =
      peripherals.foldr (fun p n => itemsCount p.children + 1 + n) 0 := by
  induction peripherals generalizing i with
  | nil => rfl
  | cons p rest ih =>
      have inside : (itemsPlaces ⟨i, []⟩ 0 p.children).length = itemsCount p.children :=
        length_itemsPlaces_of (fun c _ => length_itemPlaces c) _ _
      rw [placesFrom, List.length_append, ih, peripheralPlaces, List.length_cons, inside,
        List.foldr_cons]

/-- The places of a child are among those of its siblings. -/
theorem itemPlaces_subset {p : Place} {items : List Item} {i k : Nat} {item : Item}
    (h : items[i]? = some item) : itemPlaces (p.child (k + i)) item ⊆ itemsPlaces p k items := by
  induction items generalizing i k with
  | nil => cases h
  | cons first rest ih =>
      rw [itemsPlaces]
      cases i with
      | zero =>
          obtain rfl := Option.some.inj h
          exact List.subset_append_left _ _
      | succ i =>
          have inside := ih (k := k + 1) h
          rw [show k + 1 + i = k + (i + 1) by omega] at inside
          exact List.Subset.trans inside (List.subset_append_right _ _)

theorem peripheralPlaces_subset {peripherals : List Peripheral} {i k : Nat} {p : Peripheral}
    (h : peripherals[i]? = some p) :
    peripheralPlaces (k + i) p ⊆ placesFrom k peripherals := by
  induction peripherals generalizing i k with
  | nil => cases h
  | cons first rest ih =>
      rw [placesFrom]
      cases i with
      | zero =>
          obtain rfl := Option.some.inj h
          exact List.subset_append_left _ _
      | succ i =>
          have inside := ih (k := k + 1) h
          rw [show k + 1 + i = k + (i + 1) by omega] at inside
          exact List.Subset.trans inside (List.subset_append_right _ _)

theorem mem_itemPlaces (p : Place) (item : Item) : p ∈ itemPlaces p item := by
  cases item with
  | register r => simp [itemPlaces]
  | cluster info children => simp [itemPlaces]

theorem itemsPlaces_subset_itemPlaces (p : Place) (item : Item) :
    itemsPlaces p 0 item.children ⊆ itemPlaces p item := by
  cases item with
  | register r => simp [itemsPlaces, Item.children]
  | cluster info children =>
      rw [itemPlaces]
      exact List.subset_cons_self _ _

/-- Every node takes a place, and so do the nodes inside it.  The second part is what the induction
goes on with. -/
theorem IsAt.mem_places {d : Device} {p : Place} {kind : ItemKind} {path : String}
    (h : IsAt d p kind path) : p ∈ placesFrom 0 d.peripherals ∧
      ∀ items, childrenAt? d p = some items →
        itemsPlaces p 0 items ⊆ placesFrom 0 d.peripherals := by
  induction h with
  | @peripheral i q found =>
      have inside := peripheralPlaces_subset (k := 0) found
      rw [Nat.zero_add] at inside
      refine ⟨inside List.mem_cons_self, fun items hitems => ?_⟩
      obtain rfl : q.children = items := by simpa [found] using hitems
      exact List.Subset.trans (List.subset_cons_self _ _) inside
  | @child p kind path items i item _ hitems hitem ih =>
      have outer := itemPlaces_subset (p := p) (k := 0) hitem
      rw [Nat.zero_add] at outer
      have inside := List.Subset.trans outer (ih.2 items hitems)
      refine ⟨inside (mem_itemPlaces _ _), fun items' hitems' => ?_⟩
      obtain rfl : item.children = items' := by simpa [hitems, hitem] using hitems'
      exact List.Subset.trans (itemsPlaces_subset_itemPlaces _ _) inside

/-- **No more places are taken than there are nodes.** -/
theorem length_le_nodeCount {d : Device} {places : List Place} (distinct : places.Nodup)
    (taken : ∀ p ∈ places, ∃ kind path, IsAt d p kind path) : places.length ≤ nodeCount d := by
  have inside : places ⊆ placesFrom 0 d.peripherals := by
    intro p hp
    obtain ⟨kind, path, h⟩ := taken p hp
    exact h.mem_places.1
  have count : (placesFrom 0 d.peripherals).length = nodeCount d := length_placesFrom _ 0
  exact count ▸ (List.subperm_of_subset distinct inside).length_le

/-! ### Levels -/

/-- A level holds the described children of its place, and shows its path. -/
theorem Chain.isAt {d : Device} {level : Level} {outer : List Level}
    (h : Chain d (level :: outer)) :
    childrenAt? d level.place = some level.own ∧ ∃ kind, IsAt d level.place kind level.path := by
  generalize hl : level :: outer = levels at h
  induction h generalizing level outer with
  | ofPeripheral found base =>
      obtain ⟨rfl, -⟩ := List.cons.inj hl
      exact ⟨by simp [Level.ofPeripheral, found], _, .peripheral found⟩
  | ofCluster inner found base ih =>
      obtain ⟨rfl, -⟩ := List.cons.inj hl
      obtain ⟨children, kind, at_⟩ := ih rfl
      refine ⟨by simp [children, found, Item.children], .cluster, ?_⟩
      exact IsAt.child at_ children found

/-- A child of a level stands at the place of its number. -/
theorem Chain.child_isAt {d : Device} {level : Level} {outer : List Level}
    (h : Chain d (level :: outer)) {i : Nat} {item : Item} (found : level.own[i]? = some item) :
    IsAt d (level.place.child i) item.kind (childPath level.path item.name) := by
  obtain ⟨children, kind, at_⟩ := h.isAt
  exact .child at_ children found

end ChipMap.Inheritance
