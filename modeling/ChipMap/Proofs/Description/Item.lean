import ChipMap.Description.Basic

/-!
# Induction over the children of a node

A cluster has children that are clusters again, in a list.  `Item.induct` is the induction that
follows this shape: a register is a leaf, and **a cluster may use what is known of each of its
children**.  `Item.All` says of a tree that something holds of each of its registers and of each of
its clusters.

### What is load-bearing

`Item.All` looks at the attributes of a cluster and not at its children, which it visits itself.  So
the laws that it is used with are laws of one node, and the tree takes care of the depth.
-/

namespace ChipMap.Description

/-- **Induction over registers and clusters**, with a hypothesis for each child of a cluster.  The
recursor of the type would speak of lists of children instead. -/
theorem Item.induct {motive : Item → Prop} (register : ∀ r, motive (.register r))
    (cluster : ∀ info children, (∀ c ∈ children, motive c) →
      motive (.cluster info children)) : ∀ item, motive item
  | .register r => register r
  | .cluster info children =>
      cluster info children fun c _ => Item.induct register cluster c
termination_by item => sizeOf item
decreasing_by
  simp_wf
  have := List.sizeOf_lt_of_mem ‹c ∈ children›
  omega

/-- **What holds of every register and cluster of a tree**, whatever is inside them. -/
inductive Item.All (onRegister : Register → Prop) (onCluster : ClusterInfo → Prop) : Item → Prop
  | register {r : Register} : onRegister r → Item.All onRegister onCluster (.register r)
  | cluster {info : ClusterInfo} {children : List Item} :
    onCluster info → (∀ c ∈ children, Item.All onRegister onCluster c) →
      Item.All onRegister onCluster (.cluster info children)

section All

variable {onRegister : Register → Prop} {onCluster : ClusterInfo → Prop}

theorem Item.All.of_register {r : Register} (h : Item.All onRegister onCluster (.register r)) :
    onRegister r := by
  cases h with
  | register h => exact h

theorem Item.All.of_cluster {info : ClusterInfo} {children : List Item}
    (h : Item.All onRegister onCluster (.cluster info children)) :
    onCluster info ∧ ∀ c ∈ children, Item.All onRegister onCluster c := by
  cases h with
  | cluster h h' => exact ⟨h, h'⟩

theorem Item.All.children {item : Item} (h : item.All onRegister onCluster) :
    ∀ c ∈ item.children, c.All onRegister onCluster := by
  cases h with
  | register _ => exact fun c hc => nomatch hc
  | cluster _ h => exact h

/-- What follows from the law of each node follows from the law of a tree. -/
theorem Item.All.mono {onRegister' : Register → Prop} {onCluster' : ClusterInfo → Prop}
    (register : ∀ r, onRegister r → onRegister' r) (cluster : ∀ info, onCluster info → onCluster' info)
    {item : Item} (h : item.All onRegister onCluster) : item.All onRegister' onCluster' := by
  induction h with
  | register h => exact .register (register _ h)
  | cluster h _ ih => exact .cluster (cluster _ h) ih

end All

/-! ### Ranges that have a bit -/

/-- **A field whose range has a bit**: the highest bit is not below the lowest one. -/
def Field.Ranged (f : Field) : Prop := ∀ r ∈ f.bitRange, r.lsb.toNat ≤ r.msb.toNat

/-- All fields of a register or cluster have a bit, at any depth.  Clusters have no fields of their
own. -/
def Item.Ranged (item : Item) : Prop :=
  item.All (fun r => ∀ f ∈ r.fields, f.Ranged) fun _ => True

/-- All fields of a device have a bit. -/
def Device.Ranged (d : Device) : Prop :=
  ∀ p ∈ d.peripherals, ∀ c ∈ p.children, c.Ranged

end ChipMap.Description
