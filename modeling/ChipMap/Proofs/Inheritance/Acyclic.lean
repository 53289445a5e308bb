import ChipMap.Proofs.Inheritance.Search
import ChipMap.Proofs.Inheritance.Scope
import Mathlib.Logic.Relation

/-!
# References of a description that resolves

`Refers` says which node a node derives from, and it speaks of described nodes alone: a child that a
node inherits stands for the node that it comes from (`Walks`).  What a node draws attributes and
children from is its referent and its counterparts (`DrawsOn`).

**In a description that resolves no node reaches itself** by its references, and no field does
(`Refers.not_cyclic`, `FieldRefers.not_cyclic`).  So a description with a circle of references is
always refused, whatever the resolver asks for first.

### What is load-bearing

The proof is by induction on the depth of the direct resolution.  A node that resolves has asked for
its referent and for its children, at less depth.  Not for what it finds among the inherited
children of the levels around it, though: these were resolved before.  So the induction is told that
what the parents of the levels draw on is grounded already.

That a node does not come back to itself is concluded from more: going on from it to what it is made
of ends, along every way (`Grounded`).  This is a property that passes from a node to what it uses,
which the mere absence of a circle does not.
-/

namespace ChipMap.Inheritance

open Description Relation

/-! ### References

The three relations of this section depend on each other.  A reference names a path, a path may lead
through an inherited child, and what is inherited depends on the references of the nodes around.
They are inductive, so a node that a circle of such dependencies would lead to is led to by none of
them. -/

mutual

/-- **The node that a node derives from.**  It is a described node, also where the path goes through
an inherited child. -/
inductive Refers (d : Device) : Place → Place → Prop
  | peripheral {i j : Nat} {p : Peripheral} {target : String} :
    d.peripherals[i]? = some p → p.derivedFrom = some target →
      peripheralIndex? d target = some j → Refers d ⟨i, []⟩ ⟨j, []⟩
  | node {q p c : Place} {first : String} {rest : List String} :
    Looks d q p (first :: rest) → Walks d p (first :: rest) c → Refers d q c

/-- **The nodes that a node draws on**: its referent, and the children of its name of the nodes that
its parent draws on. -/
inductive DrawsOn (d : Device) : Place → Place → Prop
  | referent {q b : Place} : Refers d q b → DrawsOn d q b
  | counterpart {p b c : Place} {items : List Item} {i : Nat} {item : Item} :
    childrenAt? d p = some items → items[i]? = some item → DrawsOn d p b →
      Walks d b [item.name] c → DrawsOn d (p.child i) c

/-- **Names lead from a node to one inside it.**  A name that the node does not define leads to the
child of a node that it draws on.  An own child hides inherited ones of its name. -/
inductive Walks (d : Device) : Place → List String → Place → Prop
  | here {p : Place} : Walks d p [] p
  | own {p c : Place} {first : String} {rest : List String} {i : Nat} :
    childIndex? d p first = some i → Walks d (p.child i) rest c → Walks d p (first :: rest) c
  | inherited {p b c : Place} {first : String} {rest : List String} :
    childIndex? d p first = none → DrawsOn d p b → Walks d b (first :: rest) c →
      Walks d p (first :: rest) c

end

/-- **What a node is made of**: its children, and the nodes that it draws on. -/
inductive Uses (d : Device) : Place → Place → Prop
  | child {q : Place} {items : List Item} {i : Nat} :
    childrenAt? d q = some items → i < items.length → Uses d q (q.child i)
  | draws {q b : Place} : DrawsOn d q b → Uses d q b

/-- **A grounded node**: going on to what it is made of ends.  Accessibility is the library's word
for it. -/
def Grounded (d : Device) (p : Place) : Prop := Acc (fun b q => Uses d q b) p

theorem childIndex?_eq_some {d : Device} {p : Place} {name : String} {i : Nat}
    (h : childIndex? d p name = some i) :
    ∃ items, childrenAt? d p = some items ∧ i < items.length := by
  obtain ⟨items, hitems, index⟩ := Option.bind_eq_some_iff.mp h
  exact ⟨items, hitems, (List.findIdx?_eq_some_iff_getElem.mp index).1⟩

/-- What names lead to is part of what a node is made of, over as many steps as there are names. -/
theorem Walks.uses {d : Device} : ∀ {p : Place} {names : List String} {c : Place},
    Walks d p names c → ReflTransGen (Uses d) p c
  | _, _, _, .here => .refl
  | _, _, _, .own index rest =>
      have ⟨_, items, inside⟩ := childIndex?_eq_some index
      .head (.child items inside) rest.uses
  | _, _, _, .inherited _ draws rest => .head (.draws draws) rest.uses

theorem Grounded.of_uses {d : Device} {p c : Place} (h : Grounded d p)
    (uses : ReflTransGen (Uses d) p c) : Grounded d c := by
  induction uses with
  | refl => exact h
  | tail _ last ih => exact ih.inv last

theorem not_cyclic_of_acc {α : Type} {R : α → α → Prop} {x : α} (h : Acc (fun b a => R a b) x) :
    ¬TransGen R x x := by
  induction h with
  | intro x _ ih =>
      intro circle
      obtain ⟨y, first, rest⟩ := TransGen.head'_iff.mp circle
      exact ih y first (TransGen.tail' rest first)

/-! ### Inversion

A place has one chain of levels around it, so what is known of a node at some levels is known of it
at all. -/

theorem References.unique {d : Device} {level : Level} {outer : List Level} {i : Nat}
    (chain : Chain d (level :: outer)) {item : Item} (found : level.own[i]? = some item)
    {levels : List Level} {names : List String}
    (h : References d (level.place.child i) levels names) :
    levels = level :: outer ∧ ∃ target, item.derivedFrom = some target ∧
      names = pathNames target := by
  generalize place : level.place.child i = q at h
  cases h with
  | mk chain' found' derived =>
      obtain ⟨same, rfl⟩ := Place.child_inj.mp place
      obtain ⟨rfl, rfl⟩ := List.cons.inj (chain.unique chain' same)
      obtain rfl := Option.some.inj (found.symm.trans found')
      exact ⟨rfl, _, derived, rfl⟩

theorem References.not_peripheral {d : Device} {i : Nat} {levels : List Level}
    {names : List String} : ¬References d ⟨i, []⟩ levels names := by
  intro h
  generalize place : (⟨i, []⟩ : Place) = q at h
  cases h with
  | mk _ _ _ => exact Place.child_ne_peripheral place.symm

theorem Looks.references {d : Device} {q p : Place} {names : List String}
    (h : Looks d q p names) : ∃ levels names, References d q levels names := by
  cases h with
  | around refs _ => exact ⟨_, _, refs⟩
  | root refs _ _ _ => exact ⟨_, _, refs⟩
  | elsewhere leaves =>
      cases leaves with
      | mk refs _ _ _ => exact ⟨_, _, refs⟩

/-- A peripheral draws on the one that it derives from. -/
theorem DrawsOn.of_peripheral {d : Device} {i : Nat} {b : Place} (h : DrawsOn d ⟨i, []⟩ b) :
    ∃ p target j, d.peripherals[i]? = some p ∧ p.derivedFrom = some target ∧
      peripheralIndex? d target = some j ∧ b = ⟨j, []⟩ := by
  generalize place : (⟨i, []⟩ : Place) = q at h
  cases h with
  | referent refers =>
      cases refers with
      | peripheral found derived index =>
          obtain ⟨rfl, -⟩ := Place.mk.inj place
          exact ⟨_, _, _, found, derived, index, rfl⟩
      | node looks _ =>
          obtain ⟨_, _, refs⟩ := looks.references
          exact absurd (place ▸ refs) References.not_peripheral
  | counterpart _ _ _ _ => exact absurd place.symm Place.child_ne_peripheral

/-- A child draws on its referent and on its counterparts. -/
theorem DrawsOn.of_child {d : Device} {p b : Place} {i : Nat} (h : DrawsOn d (p.child i) b) :
    (∃ c first rest, Looks d (p.child i) c (first :: rest) ∧ Walks d c (first :: rest) b) ∨
      ∃ a name, DrawsOn d p a ∧ Walks d a [name] b := by
  generalize place : p.child i = q at h
  cases h with
  | referent refers =>
      cases refers with
      | peripheral _ _ _ => exact absurd place Place.child_ne_peripheral
      | node looks walks => exact .inl ⟨_, _, _, looks, walks⟩
  | counterpart _ _ draws walks =>
      obtain ⟨rfl, -⟩ := Place.child_inj.mp place
      exact .inr ⟨_, _, draws, walks⟩

/-! ### Searches that succeed

If a search succeeds as a whole, then what it asked for on its way was answered: at each level that
it came to, in the other peripheral that it went to, and for the child that carries the first name.
These lemmas get the answers out of a run of the direct resolution. -/

section Depth

variable {d : Device} {n : Nat}

theorem Comes.suffix {names : List String} {levels reached : List Level}
    (h : Comes d names levels reached) : reached <:+ levels := by
  induction h with
  | here => exact List.suffix_refl _
  | further _ _ ih => exact ih.trans (List.suffix_cons _ _)

theorem Chain.of_suffix {levels reached : List Level} (h : Chain d levels)
    (suffix : reached <:+ levels) (nonempty : reached ≠ []) : Chain d reached := by
  induction levels with
  | nil => exact absurd (List.suffix_nil.mp suffix) nonempty
  | cons level outer ih =>
      rcases List.suffix_cons_iff.mp suffix with rfl | inner
      · exact h
      · cases outer with
        | nil => exact absurd (List.suffix_nil.mp inner) nonempty
        | cons next outer => exact ih h.tail inner

/-- A search from a level has one result, at whatever depth it has one. -/
theorem followFrom_unique {k : Nat} {level : Level} {outer : List Level} {names : List String}
    {x y : Option Item} (h : followFrom (direct d n) level outer names = .ok x)
    (h' : followFrom (direct d k) level outer names = .ok y) : x = y := by
  have left := (Agreement.rel_followFrom (P := True) (agree_direct d (Nat.le_max_left n k))
    (fun _ => trivial) names) x h
  have right := (Agreement.rel_followFrom (P := True) (agree_direct d (Nat.le_max_right n k))
    (fun _ => trivial) names) y h'
  exact Except.ok.inj (left.symm.trans right)

theorem lookupLevels_unique {k : Nat} {levels : List Level} {names : List String}
    {x y : Option Item} (h : lookupLevels (direct d n) names levels = .ok x)
    (h' : lookupLevels (direct d k) names levels = .ok y) : x = y := by
  have left := (Agreement.rel_lookupLevels (P := True) (agree_direct d (Nat.le_max_left n k))
    names fun _ _ => trivial) x h
  have right := (Agreement.rel_lookupLevels (P := True) (agree_direct d (Nat.le_max_right n k))
    names fun _ _ => trivial) y h'
  exact Except.ok.inj (left.symm.trans right)

/-- A search that succeeds succeeds from each level that it comes to. -/
theorem lookupLevels_of_comes {names : List String} {levels reached : List Level}
    (h : Comes d names levels reached) {x : Option Item}
    (run : lookupLevels (direct d n) names levels = .ok x) (nonempty : reached ≠ []) :
    ∃ y, lookupLevels (direct d n) names reached = .ok y := by
  induction h with
  | here => exact ⟨x, run⟩
  | @further level outer reached failed rest ih =>
      obtain ⟨y, found, run⟩ := bind_eq_ok.mp run
      obtain ⟨k, failed⟩ := failed
      obtain rfl := followFrom_unique found failed
      cases outer with
      | nil =>
          cases rest with
          | here => exact absurd rfl nonempty
      | cons next outer => exact ih run nonempty

/-- A search that finds the first name among the described children has resolved that child, even
when it then goes on inside the child. -/
theorem child_of_followFrom {level : Level} {outer : List Level} (chain : Chain d (level :: outer))
    {first : String} {rest : List String} {x : Option Item}
    (run : followFrom (direct d n) level outer (first :: rest) = .ok x) {i : Nat}
    (index : childIndex? d level.place first = some i) :
    ∃ item, (direct d n).child (level :: outer) i = .ok item := by
  obtain ⟨found, run, -⟩ := bind_eq_ok.mp run
  rw [chain.childIndex?] at index
  rw [findInLevel, index] at run
  dsimp only at run
  rw [map_eq_pure_bind] at run
  obtain ⟨item, run, -⟩ := bind_eq_ok.mp run
  exact ⟨item, run⟩

/-- The base of a peripheral is there when the peripheral that it derives from has resolved. -/
theorem peripheral_of_basePeripheral {p : Peripheral} {base : Option Peripheral}
    (run : basePeripheral d (direct d n) p = .ok base) {target : String}
    (derived : p.derivedFrom = some target) {j : Nat}
    (index : peripheralIndex? d target = some j) :
    ∃ q, (direct d n).peripheral j = .ok q := by
  unfold basePeripheral at run
  rw [derived] at run
  dsimp only at run
  rw [index] at run
  dsimp only at run
  rw [map_eq_pure_bind] at run
  obtain ⟨q, run, -⟩ := bind_eq_ok.mp run
  exact ⟨q, run⟩

/-- **The levels that a search goes through**: some of the levels around, or the children of another
peripheral, behind its base. -/
inductive Reached (d : Device) (n : Nat) (levels : List Level) : List Level → Prop
  | around {reached : List Level} : reached <:+ levels → reached ≠ [] → Reached d n levels reached
  | elsewhere {j : Nat} {q : Peripheral} {base : Option Peripheral} :
    d.peripherals[j]? = some q → basePeripheral d (direct d n) q = .ok base →
      Reached d n levels [Level.ofPeripheral j q base]

theorem Reached.chain {levels reached : List Level} (h : Reached d n levels reached)
    (chain : Chain d levels) : Chain d reached := by
  cases h with
  | around suffix nonempty => exact chain.of_suffix suffix nonempty
  | elsewhere hq hbase => exact .ofPeripheral hq hbase

section Run

variable {level : Level} {outer : List Level} (chain : Chain d (level :: outer)) {i : Nat}
  {item : Item} (found : level.own[i]? = some item) {path : String} {referent : Option Item}
  (run : referentOf d (direct d n) (level :: outer) item path = .ok referent)

include chain found run

/-- A reference that resolves has been searched for. -/
theorem References.ran {levels : List Level} {names : List String}
    (refs : References d (level.place.child i) levels names) : levels = level :: outer ∧
      ∃ x, lookupLevels (direct d n) names levels = .ok x ∧
        (x = none → ∃ y, lookupElsewhere d (direct d n) levels names = .ok y) := by
  obtain ⟨rfl, target, derived, rfl⟩ := refs.unique chain found
  unfold referentOf at run
  rw [derived] at run
  obtain ⟨_, run, -⟩ := bind_eq_ok.mp run
  obtain ⟨x, inside, run⟩ := bind_eq_ok.mp run
  refine ⟨rfl, x, inside, ?_⟩
  rintro rfl
  obtain ⟨y, outside, -⟩ := bind_eq_ok.mp run
  exact ⟨y, outside⟩

/-- A search that leaves its peripheral goes on in the other one, behind its base. -/
theorem Leaves.ran {j : Nat} {names : List String}
    (leaves : Leaves d (level.place.child i) j names) :
    ∃ q base x, d.peripherals[j]? = some q ∧ basePeripheral d (direct d n) q = .ok base ∧
      followFrom (direct d n) (Level.ofPeripheral j q base) [] names = .ok x := by
  cases leaves with
  | mk refs failed other index =>
      obtain ⟨rfl, x, run, outside⟩ := refs.ran chain found run
      obtain ⟨k, failed⟩ := failed
      obtain rfl := lookupLevels_unique run failed
      obtain ⟨y, run⟩ := outside rfl
      obtain ⟨q, hq⟩ : ∃ q, d.peripherals[j]? = some q :=
        ⟨_, List.getElem?_eq_getElem (List.findIdx?_eq_some_iff_getElem.mp index).1⟩
      rw [lookupElsewhere, if_neg other, index] at run
      dsimp only at run
      rw [hq] at run
      obtain ⟨base, hbase, run⟩ := bind_eq_ok.mp run
      exact ⟨q, base, y, hq, hbase, run⟩

/-- **Where a search looks, it has looked**: the level is one that the search goes through, and the
search from there has a result. -/
theorem Looks.ran {p : Place} {names : List String}
    (looks : Looks d (level.place.child i) p names) :
    ∃ l o x, l.place = p ∧ Reached d n (level :: outer) (l :: o) ∧
      followFrom (direct d n) l o names = .ok x := by
  cases looks with
  | around refs comes =>
      obtain ⟨rfl, x, run, -⟩ := refs.ran chain found run
      obtain ⟨y, run⟩ := lookupLevels_of_comes comes run (by simp)
      obtain ⟨z, run, -⟩ := bind_eq_ok.mp run
      exact ⟨_, _, z, rfl, .around comes.suffix (by simp), run⟩
  | root refs comes failed same =>
      obtain ⟨rfl, x, run, -⟩ := refs.ran chain found run
      obtain ⟨y, run⟩ := lookupLevels_of_comes comes run (by simp)
      obtain ⟨z, here, run⟩ := bind_eq_ok.mp run
      obtain ⟨k, failed⟩ := failed
      obtain rfl := followFrom_unique here failed
      dsimp only at run
      rw [if_pos same] at run
      exact ⟨_, _, y, rfl, .around comes.suffix (by simp), run⟩
  | elsewhere leaves =>
      obtain ⟨q, base, x, hq, hbase, run⟩ := leaves.ran chain found run
      exact ⟨_, _, x, rfl, .elsewhere hq hbase, run⟩

end Run

end Depth

/-! ### What resolves is grounded

The induction on the depth has two statements, one for peripherals and one for children, because
each asks for the other.  For a child it is assumed that what the parents of the levels draw on is
grounded: what the levels inherit was resolved before the child is asked for, and the child does not
ask for it again. -/

/-- **What resolves at a depth is grounded**, when what the parents of the levels draw on is. -/
structure GroundedAt (d : Device) (n : Nat) : Prop where
  peripheral : ∀ {i q}, (direct d n).peripheral i = .ok q → Grounded d ⟨i, []⟩
  child : ∀ {level outer i x}, Chain d (level :: outer) →
    (∀ l ∈ level :: outer, ∀ b, DrawsOn d l.place b → Grounded d b) →
      (direct d n).child (level :: outer) i = .ok x → Grounded d (level.place.child i)

namespace GroundedAt

variable {d : Device} {n : Nat} (h : GroundedAt d n)

include h

/-- What names lead to from a level is grounded when the search for them succeeds. -/
theorem walks {level : Level} {outer : List Level} (chain : Chain d (level :: outer))
    (drawn : ∀ l ∈ level :: outer, ∀ b, DrawsOn d l.place b → Grounded d b) {first : String}
    {rest : List String} {x : Option Item}
    (run : followFrom (direct d n) level outer (first :: rest) = .ok x) {c : Place}
    (walks : Walks d level.place (first :: rest) c) : Grounded d c := by
  cases walks with
  | own index rest =>
      obtain ⟨item, resolved⟩ := child_of_followFrom chain run index
      exact (h.child chain drawn resolved).of_uses rest.uses
  | inherited _ draws rest => exact (drawn level List.mem_cons_self _ draws).of_uses rest.uses

/-- What a peripheral draws on is grounded when its base resolves.  It draws on its referent
only. -/
theorem drawn_of_base {i : Nat} {p : Peripheral} (found : d.peripherals[i]? = some p)
    {base : Option Peripheral} (run : basePeripheral d (direct d n) p = .ok base) {b : Place}
    (draws : DrawsOn d ⟨i, []⟩ b) : Grounded d b := by
  obtain ⟨p', target, j, found', derived, index, rfl⟩ := draws.of_peripheral
  obtain rfl := Option.some.inj (found.symm.trans found')
  obtain ⟨q, resolved⟩ := peripheral_of_basePeripheral run derived index
  exact h.peripheral resolved

/-- **The referent of a node is grounded** when the search for it succeeds. -/
theorem looks {level : Level} {outer : List Level} (chain : Chain d (level :: outer))
    (drawn : ∀ l ∈ level :: outer, ∀ b, DrawsOn d l.place b → Grounded d b) {i : Nat}
    {item : Item} (found : level.own[i]? = some item) {path : String} {referent : Option Item}
    (run : referentOf d (direct d n) (level :: outer) item path = .ok referent) {p c : Place}
    {first : String} {rest : List String}
    (looks : Looks d (level.place.child i) p (first :: rest))
    (walks : Walks d p (first :: rest) c) : Grounded d c := by
  obtain ⟨l, o, x, rfl, reached, run⟩ := looks.ran chain found run
  refine h.walks (reached.chain chain) ?_ run walks
  intro l' hl' b draws
  cases reached with
  | around suffix _ => exact drawn l' (suffix.subset hl') b draws
  | elsewhere hq hbase =>
      obtain rfl := List.mem_singleton.mp hl'
      exact h.drawn_of_base hq hbase draws

/-- **Children of a level are grounded** when the level resolves. -/
theorem level {level : Level} {outer : List Level} (chain : Chain d (level :: outer))
    (drawn : ∀ l ∈ level :: outer, ∀ b, DrawsOn d l.place b → Grounded d b) {scope : List Item}
    (run : resolveLevel (direct d n) level outer = .ok scope) {i : Nat}
    (inside : i < level.own.length) : Grounded d (level.place.child i) := by
  obtain ⟨kept, -, each⟩ := resolveLevel_ok run
  obtain ⟨x, -, resolved⟩ := getElem?_of_range each inside
  exact h.child chain drawn resolved

/-- **A node that resolves is grounded**: so are the nodes that it draws on, and its children. -/
theorem item {level : Level} {outer : List Level} (chain : Chain d (level :: outer))
    (drawn : ∀ l ∈ level :: outer, ∀ b, DrawsOn d l.place b → Grounded d b) {i : Nat}
    {item : Item} (found : level.own[i]? = some item) {x : Item}
    (run : resolveItem d (direct d n) level outer (level.place.child i)
      (childPath level.path item.name) item = .ok x) : Grounded d (level.place.child i) := by
  obtain ⟨base, hbase, run⟩ := bind_eq_ok.mp run
  have draws : ∀ b, DrawsOn d (level.place.child i) b → Grounded d b := by
    intro b draws
    obtain ⟨referent, hreferent, -⟩ := bind_eq_ok.mp hbase
    rcases draws.of_child with ⟨c, first, rest, looks, walks⟩ | ⟨a, name, parent, walks⟩
    · exact h.looks chain drawn found hreferent looks walks
    · exact (drawn level List.mem_cons_self a parent).of_uses walks.uses
  have children : childrenAt? d (level.place.child i) = some item.children := by
    simp [chain.isAt.1, found]
  refine .intro _ fun b uses => ?_
  cases uses with
  | draws draws' => exact draws b draws'
  | @child items k hitems inside =>
      obtain rfl := Option.some.inj (children.symm.trans hitems)
      cases item with
      | register own => cases inside
      | cluster own items =>
          -- One level further inside, what the new parent draws on was shown to be grounded.
          obtain ⟨resolved, hresolved, -⟩ := bind_eq_ok.mp run
          refine h.level (.ofCluster chain found hbase) ?_ hresolved inside
          intro l hl b draws'
          rcases List.mem_cons.mp hl with rfl | hl
          · exact draws b draws'
          · exact drawn l hl b draws'

/-- **A peripheral that resolves is grounded.** -/
theorem ofPeripheral {i : Nat} {p : Peripheral} (found : d.peripherals[i]? = some p)
    {q : Peripheral} (run : resolvePeripheralBody d (direct d n) i p = .ok q) :
    Grounded d ⟨i, []⟩ := by
  obtain ⟨base, children, hbase, hchildren, -⟩ := resolvePeripheralBody_ok run
  refine .intro _ fun b uses => ?_
  generalize place : (⟨i, []⟩ : Place) = q at uses
  cases uses with
  | draws draws => exact h.drawn_of_base found hbase (place ▸ draws)
  | @child items k hitems inside =>
      subst place
      obtain rfl : p.children = items := by simpa [found] using hitems
      refine h.level (.ofPeripheral found hbase) ?_ hchildren inside
      intro l hl b draws
      obtain rfl := List.mem_singleton.mp hl
      exact h.drawn_of_base found hbase draws

end GroundedAt

/-- **What resolves is grounded**, by induction on the depth. -/
theorem groundedAt (d : Device) (n : Nat) : GroundedAt d n := by
  induction n with
  | zero =>
      refine ⟨?_, ?_⟩
      · intro i q h
        cases h
      · intro level outer i x _ _ h
        cases h
  | succ n ih =>
      refine ⟨?_, ?_⟩
      · intro i q h
        obtain ⟨p, found, h⟩ := direct_peripheral_ok.mp h
        exact ih.ofPeripheral found h
      · intro level outer i x chain drawn h
        obtain ⟨item, found, h⟩ := direct_child_ok.mp h
        exact ih.item chain drawn found h

/-! ### Descriptions that resolve

Every node stands inside a peripheral, and all peripherals of a description that resolves have
resolved. -/

theorem IsAt.uses {d : Device} {p : Place} {kind : ItemKind} {path : String}
    (h : IsAt d p kind path) :
    ∃ i < d.peripherals.length, ReflTransGen (Uses d) ⟨i, []⟩ p := by
  induction h with
  | peripheral found => exact ⟨_, (List.getElem?_eq_some_iff.mp found).1, .refl⟩
  | child _ items found ih =>
      obtain ⟨i, inside, uses⟩ := ih
      exact ⟨i, inside, uses.tail (.child items (List.getElem?_eq_some_iff.mp found).1)⟩

/-- **In a description that resolves every node is grounded.** -/
theorem grounded_of_resolve {d r : Device} (h : resolve d = .ok r) {p : Place}
    {kind : ItemKind} {path : String} (at_ : IsAt d p kind path) : Grounded d p := by
  obtain ⟨-, n, all⟩ := resolve_direct h
  obtain ⟨i, inside, uses⟩ := at_.uses
  obtain ⟨q, -, resolved⟩ := getElem?_of_range all inside
  exact ((groundedAt d n).peripheral resolved).of_uses uses

theorem Refers.isAt {d : Device} {q c : Place} (h : Refers d q c) :
    ∃ kind path, IsAt d q kind path := by
  cases h with
  | peripheral found _ _ => exact ⟨_, _, .peripheral found⟩
  | node looks _ =>
      obtain ⟨levels, names, refs⟩ := looks.references
      cases refs with
      | mk chain found _ => exact ⟨_, _, chain.child_isAt found⟩

/-- **No node of a description that resolves reaches itself** by its references. -/
theorem Refers.not_cyclic {d r : Device} (h : resolve d = .ok r) {q : Place} :
    ¬TransGen (Refers d) q q := by
  intro circle
  obtain ⟨c, first, -⟩ := TransGen.head'_iff.mp circle
  obtain ⟨kind, path, at_⟩ := first.isAt
  have uses : TransGen (Uses d) q q :=
    circle.lift id fun _ _ refers => .draws (.referent refers)
  exact not_cyclic_of_acc (grounded_of_resolve h at_) uses

/-! ### References of fields

A field is named among the fields of its register, inherited ones included.  Registers resolve
before their fields are looked at, so the argument is made again one level further in: by induction
over what a register is made of, and for the fields of one register on the fuel. -/

/-- The register at a place.  Only the described attributes of it are spoken of. -/
inductive RegisterAt (d : Device) : Place → Register → Prop
  | mk {p : Place} {kind : ItemKind} {path : String} {items : List Item} {i : Nat}
    {r : Register} :
    IsAt d p kind path → childrenAt? d p = some items → items[i]? = some (.register r) →
      RegisterAt d (p.child i) r

/-- **A name leads from a register to a field**: to one that the register defines, or to one of a
register that it draws on.  The field is given by the place of its register and its number. -/
inductive LeadsToField (d : Device) : Place → String → Place × Nat → Prop
  | own {q : Place} {r : Register} {name : String} {j : Nat} :
    RegisterAt d q r → r.fields.findIdx? (fun f => f.name == name) = some j →
      LeadsToField d q name (q, j)
  | inherited {q b : Place} {r : Register} {name : String} {field : Place × Nat} :
    RegisterAt d q r → r.fields.findIdx? (fun f => f.name == name) = none → DrawsOn d q b →
      LeadsToField d b name field → LeadsToField d q name field

/-- **The field that a field derives from.** -/
inductive FieldRefers (d : Device) : Place × Nat → Place × Nat → Prop
  | mk {q : Place} {r : Register} {k : Nat} {f : Field} {target : String}
    {field : Place × Nat} :
    RegisterAt d q r → r.fields[k]? = some f → f.derivedFrom = some target →
      LeadsToField d q target field → FieldRefers d (q, k) field

theorem RegisterAt.unique {d : Device} {q : Place} {r r' : Register} (h : RegisterAt d q r)
    (h' : RegisterAt d q r') : r = r' := by
  generalize place : q = q' at h'
  cases h with
  | mk _ items found =>
      cases h' with
      | mk _ items' found' =>
          obtain ⟨rfl, rfl⟩ := Place.child_inj.mp place
          obtain rfl := Option.some.inj (items.symm.trans items')
          exact Item.register.inj (Option.some.inj (found.symm.trans found'))

/-- The children of a level that resolves do, each by its step and at the same depth. -/
theorem exists_resolveItem {d : Device} {n : Nat} {level : Level} {outer : List Level}
    {scope : List Item} (run : resolveLevel (direct d n) level outer = .ok scope) {i : Nat}
    {item : Item} (found : level.own[i]? = some item) :
    ∃ x, resolveItem d (direct d n) level outer (level.place.child i)
      (childPath level.path item.name) item = .ok x := by
  obtain ⟨kept, -, each⟩ := resolveLevel_ok run
  obtain ⟨x, -, resolved⟩ := getElem?_of_range each (List.getElem?_eq_some_iff.mp found).1
  obtain ⟨item', found', run⟩ := (direct_closed d n).child resolved
  obtain rfl := Option.some.inj (found.symm.trans found')
  exact ⟨x, run⟩

/-- **In a description that resolves the levels of every node resolve.** -/
theorem exists_resolveLevel {d : Device} {n : Nat}
    (all : ∀ i < d.peripherals.length, ∃ q, (direct d n).peripheral i = .ok q) {p : Place}
    {kind : ItemKind} {path : String} (at_ : IsAt d p kind path) :
    ∀ items, childrenAt? d p = some items → items ≠ [] → ∃ level outer scope,
      Chain d (level :: outer) ∧ level.place = p ∧ level.own = items ∧
        resolveLevel (direct d n) level outer = .ok scope := by
  induction at_ with
  | @peripheral i q found =>
      intro items hitems _
      obtain rfl : q.children = items := by simpa [found] using hitems
      obtain ⟨q', resolved⟩ := all i (List.getElem?_eq_some_iff.mp found).1
      obtain ⟨q'', found', run⟩ := (direct_closed d n).peripheral resolved
      obtain rfl := Option.some.inj (found.symm.trans found')
      obtain ⟨base, children, hbase, hchildren, -⟩ := resolvePeripheralBody_ok run
      exact ⟨_, _, children, .ofPeripheral found hbase, rfl, rfl, hchildren⟩
  | @child p kind path items i item _ hitems found ih =>
      intro inner hinner nonempty
      obtain rfl : item.children = inner := by simpa [hitems, found] using hinner
      -- The level around has a child, so it resolved; that of this child did as a part of it.
      have some_item : items ≠ [] := by
        rintro rfl
        cases found
      obtain ⟨level, outer, scope, chain, rfl, rfl, run⟩ := ih items hitems some_item
      obtain ⟨x, run⟩ := exists_resolveItem run found
      obtain ⟨base, hbase, run⟩ := bind_eq_ok.mp run
      cases item with
      | register own => exact absurd rfl nonempty
      | cluster own children =>
          obtain ⟨scope', hscope, -⟩ := bind_eq_ok.mp run
          exact ⟨_, _, scope', .ofCluster chain found hbase, rfl, rfl, hscope⟩

/-- **In a description that resolves the fields of every register resolve.** -/
theorem exists_resolveFields {d r : Device} (h : resolve d = .ok r) {q : Place} {own : Register}
    (at_ : RegisterAt d q own) :
    ∃ path inherited kept, resolveFields ⟨path, own.fields, inherited⟩ = .ok kept := by
  obtain ⟨-, n, all⟩ := resolve_direct h
  have each : ∀ i < d.peripherals.length, ∃ q, (direct d n).peripheral i = .ok q := by
    intro i inside
    obtain ⟨q, -, resolved⟩ := getElem?_of_range all inside
    exact ⟨q, resolved⟩
  cases at_ with
  | @mk p _ _ items _ _ outside hitems found =>
      have some_item : items ≠ [] := by
        rintro rfl
        cases found
      obtain ⟨level, outer, scope, chain, rfl, rfl, run⟩ :=
        exists_resolveLevel each outside _ hitems some_item
      obtain ⟨x, run⟩ := exists_resolveItem run found
      obtain ⟨base, hbase, run⟩ := bind_eq_ok.mp run
      obtain ⟨register, hregister, -⟩ := bind_eq_ok.mp run
      rw [ofExcept_eq] at hregister
      obtain ⟨fields, hfields, -⟩ := bind_eq_ok.mp hregister
      exact ⟨_, _, fields, hfields⟩

/-- A field that resolves is grounded when the fields are that its register draws on, by induction
on the fuel. -/
theorem grounded_of_resolveField {d : Device} {q : Place} {own : Register}
    (at_ : RegisterAt d q own)
    (drawn : ∀ b, DrawsOn d q b → ∀ name field, LeadsToField d b name field →
      Acc (fun g f => FieldRefers d f g) field)
    {s : FieldScope} (same : s.own = own.fields) {fuel : Nat} : ∀ {underway : List Nat} {k : Nat}
      {f : Field}, resolveField s fuel underway k = .ok f →
        Acc (fun g f => FieldRefers d f g) (q, k) := by
  induction fuel with
  | zero =>
      intro underway k f h
      cases h
  | succ fuel ih =>
      intro underway k f h
      refine .intro _ fun field refers => ?_
      cases refers with
      | mk at' found derived leads =>
          obtain rfl := at_.unique at'
          -- A field of the base is grounded by hypothesis; one of the register resolved with less
          -- fuel.
          cases leads with
          | inherited _ _ draws leads => exact drawn _ draws _ _ leads
          | own at' index =>
              obtain rfl := at_.unique at'
              obtain ⟨o, found', h⟩ := resolveField_cases h
              rw [same] at found'
              obtain rfl := Option.some.inj (found.symm.trans found')
              rcases h with ⟨plain, -⟩ | ⟨target, referent, derived', hreferent, -⟩
              · rw [plain] at derived
                cases derived
              · obtain rfl := Option.some.inj (derived.symm.trans derived')
                rcases hreferent with ⟨j, index', resolved⟩ | ⟨none_, -⟩
                · rw [FieldScope.index?, same] at index'
                  obtain rfl := Option.some.inj (index.symm.trans index')
                  exact ih resolved
                · rw [FieldScope.index?, same] at none_
                  rw [none_] at index
                  cases index

/-- **In a description that resolves every field is grounded**, by induction over what its register
is made of.  The second part is what the induction hands on to registers that draw on this one. -/
theorem field_grounded {d r : Device} (h : resolve d = .ok r) {q : Place}
    (grounded : Grounded d q) : (∀ k, Acc (fun g f => FieldRefers d f g) (q, k)) ∧
      ∀ name field, LeadsToField d q name field → Acc (fun g f => FieldRefers d f g) field := by
  induction grounded with
  | intro q _ ih =>
      -- The fields of the register come first: a name may lead to one of them.
      have own : ∀ k, Acc (fun g f => FieldRefers d f g) (q, k) := by
        intro k
        refine .intro _ fun field refers => ?_
        cases refers with
        | @mk _ own _ f target _ at_ found derived leads =>
            obtain ⟨path, inherited, kept, fields⟩ := exists_resolveFields h at_
            have inside := (List.getElem?_eq_some_iff.mp found).1
            obtain ⟨f', -, resolved⟩ := getElem?_of_range (mapM_eq_ok.mp fields) inside
            have all := grounded_of_resolveField at_
              (fun b draws => (ih b (.draws draws)).2) rfl resolved
            exact all.inv (.mk at_ found derived leads)
      refine ⟨own, fun name field leads => ?_⟩
      cases leads with
      | own at_ index => exact own _
      | inherited _ _ draws leads => exact (ih _ (.draws draws)).2 name field leads

/-- **No field of a description that resolves reaches itself** by its references. -/
theorem FieldRefers.not_cyclic {d r : Device} (h : resolve d = .ok r) {field : Place × Nat} :
    ¬TransGen (FieldRefers d) field field := by
  intro circle
  obtain ⟨other, first, -⟩ := TransGen.head'_iff.mp circle
  cases first with
  | @mk q own k _ _ _ at_ _ _ _ =>
      have grounded : Grounded d q := by
        cases at_ with
        | mk outside hitems found =>
            exact grounded_of_resolve h (.child outside hitems found)
      exact not_cyclic_of_acc ((field_grounded h grounded).1 k) circle

end ChipMap.Inheritance
