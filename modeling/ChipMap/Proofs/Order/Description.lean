import ChipMap.Proofs.Description.Item
import ChipMap.Proofs.Inheritance.Named
import ChipMap.Proofs.Order.Siblings

/-!
# Descriptions in another order

Two descriptions that **differ in the order of siblings only** are `Device.Reordered`: their
peripherals, the registers and clusters inside them and the fields of the registers are the same, in
any order at any depth; lists that are no siblings, as those of enumerated values and of interrupts,
stay as they are.

References are followed by names, so what a reordered description means is the same only as long as
no two siblings have one name (`Device.Distinct`).  Where both hold, two nodes *match*
(`Item.Matches`, `Peripheral.Matches`); merging matching nodes gives matching nodes
(`mergeItem_alike`).

### What is load-bearing

The relation pairs the children one by one first, through a list in between, and permutes that list
afterwards.  An induction over it meets the children as they stand on the left, with a relation for
each, and the permutation at the end is of whole subtrees.

Matching says of the left side only that its names are distinct.  The right side has them too, as
partners have one name (`Siblings.distinct_right`).
-/

namespace ChipMap.Description

/-- **A register with its fields in any order.** -/
def Register.Reordered (r r' : Register) : Prop :=
  ∃ fields, r.fields.Perm fields ∧ r' = { r with fields }

/-- **A register or cluster in another order**: what is inside it is the same, in any order at any
depth. -/
inductive Item.Reordered : Item → Item → Prop
  | register {r r' : Register} : r.Reordered r' → Item.Reordered (.register r) (.register r')
  | cluster {info : ClusterInfo} {children between children' : List Item} :
    List.Forall₂ Item.Reordered children between → between.Perm children' →
      Item.Reordered (.cluster info children) (.cluster info children')

/-- **A peripheral in another order.** -/
def Peripheral.Reordered (p p' : Peripheral) : Prop :=
  ∃ children, Shuffled Item.Reordered p.children children ∧ p' = { p with children }

/-- **A device in another order.** -/
def Device.Reordered (d d' : Device) : Prop :=
  ∃ peripherals, Shuffled Peripheral.Reordered d.peripherals peripherals ∧
    d' = { d with peripherals }

/-- No two siblings inside a register or cluster have one name, at any depth.  Registers and
clusters are siblings of each other. -/
inductive Item.Distinct : Item → Prop
  | register {r : Register} : (r.fields.map (·.name)).Nodup → Item.Distinct (.register r)
  | cluster {info : ClusterInfo} {children : List Item} :
    (children.map Item.name).Nodup → (∀ c ∈ children, Item.Distinct c) →
      Item.Distinct (.cluster info children)

/-- No two siblings inside a peripheral have one name. -/
def Peripheral.Distinct (p : Peripheral) : Prop :=
  (p.children.map Item.name).Nodup ∧ ∀ c ∈ p.children, c.Distinct

/-- **No two siblings have one name**: peripherals, registers and clusters among each other, and
fields. -/
def Device.Distinct (d : Device) : Prop :=
  (d.peripherals.map (·.name)).Nodup ∧ ∀ p ∈ d.peripherals, p.Distinct

theorem Item.Reordered.name_eq {x y : Item} (h : x.Reordered y) : x.name = y.name := by
  cases h with
  | register h =>
      obtain ⟨fields, -, rfl⟩ := h
      rfl
  | cluster _ _ => rfl

/-! ### Matching nodes -/

/-- Two orders of a register whose fields have distinct names. -/
def Register.Matches (r r' : Register) : Prop :=
  ∃ fields, Siblings Eq Field.name r.fields fields ∧ r' = { r with fields }

/-- **Two orders of a register or cluster** inside which no two siblings have one name. -/
def Item.Matches (x y : Item) : Prop := x.Reordered y ∧ x.Distinct

/-- Two orders of a peripheral inside which no two siblings have one name. -/
def Peripheral.Matches (p p' : Peripheral) : Prop :=
  ∃ children, Siblings Item.Matches Item.name p.children children ∧ p' = { p with children }

theorem Item.Matches.name_eq {x y : Item} (h : x.Matches y) : x.name = y.name := h.1.name_eq

theorem Item.Matches.kind_eq {x y : Item} (h : x.Matches y) : x.kind = y.kind := by
  obtain ⟨reordered, -⟩ := h
  cases reordered with
  | register _ => rfl
  | cluster _ _ => rfl

theorem Item.Matches.derivedFrom_eq {x y : Item} (h : x.Matches y) :
    x.derivedFrom = y.derivedFrom := by
  obtain ⟨reordered, -⟩ := h
  cases reordered with
  | register h =>
      obtain ⟨fields, -, rfl⟩ := h
      rfl
  | cluster _ _ => rfl

theorem Peripheral.Matches.name_eq {p q : Peripheral} (h : p.Matches q) : p.name = q.name := by
  obtain ⟨children, -, rfl⟩ := h
  rfl

/-- Siblings that are reordered and have distinct names inside match one by one. -/
theorem siblings_of_reordered {xs ys : List Item} (h : Shuffled Item.Reordered xs ys)
    (names : (xs.map Item.name).Nodup) (inside : ∀ x ∈ xs, x.Distinct) :
    Siblings Item.Matches Item.name xs ys where
  shuffled := h.members.mono fun _ _ ⟨hx, _, r⟩ => ⟨r, inside _ hx⟩
  named _ _ h := h.name_eq
  distinct := names

theorem reordered_of_siblings {xs ys : List Item} (h : Siblings Item.Matches Item.name xs ys) :
    Shuffled Item.Reordered xs ys ∧ ∀ x ∈ xs, x.Distinct := by
  refine ⟨h.shuffled.mono fun _ _ m => m.1, fun x hx => ?_⟩
  obtain ⟨y, -, m⟩ := h.shuffled.exists_right hx
  exact m.2

theorem Item.matches_register {r : Register} {y : Item} :
    (Item.register r).Matches y ↔ ∃ r', r.Matches r' ∧ y = .register r' := by
  constructor
  · rintro ⟨reordered, distinct⟩
    cases reordered with
    | register h =>
        obtain ⟨fields, p, rfl⟩ := h
        cases distinct with
        | register names =>
            exact ⟨_, ⟨fields, ⟨.of_perm p, fun _ _ => congrArg _, names⟩, rfl⟩, rfl⟩
  · rintro ⟨r', ⟨fields, siblings, rfl⟩, rfl⟩
    exact ⟨.register ⟨fields, siblings.shuffled.perm, rfl⟩, .register siblings.distinct⟩

theorem Item.matches_cluster {info : ClusterInfo} {xs : List Item} {y : Item} :
    (Item.cluster info xs).Matches y ↔
      ∃ ys, Siblings Item.Matches Item.name xs ys ∧ y = .cluster info ys := by
  constructor
  · rintro ⟨reordered, distinct⟩
    cases reordered with
    | cluster pairs p =>
        cases distinct with
        | cluster names inside =>
            exact ⟨_, siblings_of_reordered ⟨_, pairs, p⟩ names inside, rfl⟩
  · rintro ⟨ys, siblings, rfl⟩
    obtain ⟨⟨between, pairs, p⟩, inside⟩ := reordered_of_siblings siblings
    exact ⟨.cluster pairs p, .cluster siblings.distinct inside⟩

theorem Item.Matches.children {x y : Item} (h : x.Matches y) :
    Siblings Item.Matches Item.name x.children y.children := by
  cases x with
  | register r =>
      obtain ⟨r', -, rfl⟩ := Item.matches_register.mp h
      exact ⟨⟨[], .nil, .nil⟩, fun _ _ h => h.name_eq, .nil⟩
  | cluster info xs =>
      obtain ⟨ys, siblings, rfl⟩ := Item.matches_cluster.mp h
      exact siblings

end ChipMap.Description
