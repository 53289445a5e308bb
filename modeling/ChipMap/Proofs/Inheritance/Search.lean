import ChipMap.Proofs.Inheritance.Place

/-!
# What a node needs

A reference is a path of names, and the search for it goes from level to level.  `Looks` says where
a search looks and for which names; a search comes to a level only when it failed at the levels
further inside (`Comes`).  `Needs` lists **what has to be resolved for a node**: its children, what
its peripheral derives from, the nodes that its search meets on the path, and, when the path begins
with another peripheral, the one that this peripheral derives from.

A cycle is a walk along these needs that ends where it began (`Circle`).  The fields of one register
have cycles of their own.

### What is load-bearing

Needs are more than uses: a search resolves nodes on its way that the node takes nothing from.  They
are fewer than what stands in the levels: an inherited child is not resolved again.

That a search fails at a level is said by the direct resolution, at some depth.  So needs do not
depend on what a resolver remembers, and a circle of needs is a property of the description.
-/

namespace ChipMap.Inheritance

open Description

/-- **A node with a reference**: its place, the levels around it, and the names of the path that it
derives from.  What a level inherits is known where the base of its parent resolves, and where it
does not there is a fault anyway. -/
inductive References (d : Device) : Place → List Level → List String → Prop
  | mk {level : Level} {outer : List Level} {i : Nat} {item : Item} {target : String} :
    Chain d (level :: outer) → level.own[i]? = some item → item.derivedFrom = some target →
      References d (level.place.child i) (level :: outer) (pathNames target)

/-- **A search comes to levels** when the names lead nowhere from the levels further inside. -/
inductive Comes (d : Device) (names : List String) : List Level → List Level → Prop
  | here {levels : List Level} : Comes d names levels levels
  | further {level : Level} {outer reached : List Level} :
    (∃ n, followFrom (direct d n) level outer names = .ok none) → Comes d names outer reached →
      Comes d names (level :: outer) reached

/-- **A search leaves its peripheral** for the one that the path begins with, when no level around
has the path. -/
inductive Leaves (d : Device) (q : Place) : Nat → List String → Prop
  | mk {levels : List Level} {first second : String} {rest : List String} {j : Nat} :
    References d q levels (first :: second :: rest) →
      (∃ n, lookupLevels (direct d n) (first :: second :: rest) levels = .ok none) →
        first ≠ rootPath levels → peripheralIndex? d first = some j →
          Leaves d q j (second :: rest)

/-- **Where the search of a node looks**: the place among whose children names are looked up. -/
inductive Looks (d : Device) (q : Place) : Place → List String → Prop
  /-- From a level around. -/
  | around {level : Level} {levels outer : List Level} {names : List String} :
    References d q levels names → Comes d names levels (level :: outer) →
      Looks d q level.place names
  /-- From the outermost level, named by its peripheral. -/
  | root {level : Level} {levels : List Level} {first : String} {rest : List String} :
    References d q levels (first :: rest) → Comes d (first :: rest) levels [level] →
      (∃ n, followFrom (direct d n) level [] (first :: rest) = .ok none) → level.path = first →
        Looks d q level.place rest
  /-- From another peripheral. -/
  | elsewhere {j : Nat} {names : List String} : Leaves d q j names → Looks d q ⟨j, []⟩ names

/-- The number of the first child of a name among the described children at a place. -/
def childIndex? (d : Device) (p : Place) (name : String) : Option Nat :=
  (childrenAt? d p).bind fun items => items.findIdx? fun item => item.name == name

/-- The number of a name among the children of a level. -/
theorem Chain.childIndex? {d : Device} {level : Level} {outer : List Level}
    (h : Chain d (level :: outer)) (name : String) :
    childIndex? d level.place name = level.own.findIdx? fun item => item.name == name := by
  rw [Inheritance.childIndex?, h.isAt.1, Option.bind_some]

/-- **What has to be resolved for a node.**  Each case is a place where a step asks its solvers for
a node. -/
inductive Needs (d : Device) : Place → Place → Prop
  /-- A child. -/
  | child {q : Place} {items : List Item} {i : Nat} :
    childrenAt? d q = some items → i < items.length → Needs d q (q.child i)
  /-- The peripheral that a peripheral derives from. -/
  | base {i j : Nat} {p : Peripheral} {target : String} :
    d.peripherals[i]? = some p → p.derivedFrom = some target →
      peripheralIndex? d target = some j → Needs d ⟨i, []⟩ ⟨j, []⟩
  /-- The node that the first name of a path leads to: the referent, or a node on the way. -/
  | named {q p : Place} {first : String} {rest : List String} {i : Nat} :
    Looks d q p (first :: rest) → childIndex? d p first = some i → Needs d q (p.child i)
  /-- The peripheral that the peripheral at the start of a path derives from. -/
  | baseElsewhere {q : Place} {i j : Nat} {p : Peripheral} {names : List String}
    {target : String} :
    Leaves d q i names → d.peripherals[i]? = some p → p.derivedFrom = some target →
      peripheralIndex? d target = some j → Needs d q ⟨j, []⟩

/-- A field needs the field of its register that it derives from.  An inherited field is resolved
and needs nothing. -/
def FieldNeeds (fields : List Field) (i j : Nat) : Prop :=
  ∃ f target, fields[i]? = some f ∧ f.derivedFrom = some target ∧
    fields.findIdx? (fun g => g.name == target) = some j

/-- **A cycle of fields** of one register, as it is reported. -/
def FieldCircle (path : String) (fields : List Field) (chain : List String) : Prop :=
  ∃ numbers : List Nat, 2 ≤ numbers.length ∧ numbers.head? = numbers.getLast? ∧
    numbers.IsChain (FieldNeeds fields) ∧
      List.Forall₂ (fun k text => ∃ f, fields[k]? = some f ∧ text = childPath path f.name)
        numbers chain

/-- **A cycle as it is reported**: the paths of at least two nodes, each of which the one before it
needs, the last of which is the first again. -/
inductive Circle (d : Device) : ItemKind → List String → Prop
  /-- A cycle of peripherals, registers and clusters. -/
  | nodes {kind : ItemKind} {places : List Place} {chain : List String} :
    2 ≤ places.length → places.head? = places.getLast? → places.IsChain (Needs d) →
      (∀ p ∈ places.head?, ∃ path, IsAt d p kind path) →
        List.Forall₂ (fun p path => ∃ kind, IsAt d p kind path) places chain →
          Circle d kind chain
  /-- A cycle of fields of one register. -/
  | fields {p : Place} {path : String} {items : List Item} {i : Nat} {r : Register}
    {chain : List String} :
    childrenAt? d p = some items → items[i]? = some (.register r) →
      IsAt d (p.child i) .register path → FieldCircle path r.fields chain →
        Circle d .field chain

end ChipMap.Inheritance
