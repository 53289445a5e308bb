import ChipMap.Proofs.Order.Canonical

/-!
# Nodes under their final names

The nodes of a level get new names and a new order at its end, and nothing else.  So **what is
arranged are the nodes that were built, shuffled and under their names or these with a number**
(`arrange_shuffled`, `arrangePeripherals_shuffled`).  Whatever does not depend on names can be read
off the nodes before they are arranged (`arrange_kept`, `exists_builtFrom`).

### What is load-bearing

Registers and clusters of a level claim their names together but are kept in two lists.  A level is
therefore looked at as one list of entries, in which the two are still together.
-/

namespace ChipMap.Map

/-! ### Registers and clusters -/

/-- **Arranged entries are the entries under their final names**, in another order.  Every entry is
there once. -/
theorem arrange_shuffled (entries : List Entry) :
    Shuffled (fun e x => ∃ n, x = e.rename n ∧ Name.Numbers e.name n) entries
      (arrange entries).entries := by
  obtain ⟨between, renamed, p⟩ := @Name.renameInOrder_shuffled Entry _ claimLe
    (fun e => (Entry.view.element e).key) (fun e => (Entry.view.element e).name) Entry.view.rename _
    Name.Claimed.choose_numbers entries
  refine ⟨between, renamed.imp ?_, p.trans (entries_arrange entries).symm⟩
  rintro e x ⟨n, rfl, numbers⟩
  refine ⟨n, rfl, ?_⟩
  cases e <;> exact numbers

/-- **What no name is part of** is there as often as before.  Positions, sizes and properties are of
this kind. -/
theorem arrange_kept {α : Type} {f : Entry → α} (kept : ∀ e n, f (e.rename n) = f e)
    (entries : List Entry) : ((arrange entries).entries.map f).Perm (entries.map f) := by
  have same : Shuffled Eq (entries.map f) ((arrange entries).entries.map f) :=
    (arrange_shuffled entries).map fun e _ ⟨n, renamed, _⟩ => renamed ▸ (kept e n).symm
  exact same.perm.symm

/-! ### Peripherals -/

/-- **Arranged peripherals are the peripherals under their final names**, in another order. -/
theorem arrangePeripherals_shuffled (built : List Peripheral) :
    Shuffled (fun (p x : Peripheral) => ∃ n, x = { p with name := n } ∧ Name.Numbers p.name n) built
      (arrangePeripherals built) := by
  obtain ⟨between, renamed, p⟩ := @Name.renameInOrder_shuffled Peripheral _ (Name.lexLe Name.natLe)
    (fun p => (p.name, p.baseAddress.toNat)) (·.name) (fun p name => { p with name }) _
    Name.Claimed.choose_numbers built
  exact ⟨between, renamed, p.trans (Name.sortOn_perm _ _ _).symm⟩

/-- **A peripheral of a map is one that a peripheral of the description is built to**, under the
name that it has got. -/
def Peripheral.BuiltFrom (d : Description.Device) (p : Description.Peripheral) (q : Peripheral) :
    Prop :=
  p ∈ d.peripherals ∧ ∃ built, buildPeripheral d.properties p = .ok built ∧
    ∃ x ∈ built, ∃ name, q = { x with name }

theorem exists_builtFrom {d : Description.Device} {device : Device}
    (h : ofDescription d = .ok device) {q : Peripheral} (hq : q ∈ device.peripherals) :
    ∃ p, q.BuiltFrom d p := by
  obtain ⟨lists, -, hlists, arranged⟩ := ofDescription_ok h
  obtain ⟨x, hx, name, rfl, -⟩ := (arrangePeripherals_shuffled _).exists_left (arranged ▸ hq)
  obtain ⟨list, hlist, hx⟩ := List.mem_flatten.mp hx
  obtain ⟨p, hp, built⟩ := exists_of_forall₂ hlists.flip hlist
  exact ⟨p, hp, list, built, x, hx, name, rfl⟩

/-- The address range of a peripheral is what it is built from. -/
theorem Peripheral.BuiltFrom.addressRange_eq {d : Description.Device} {p : Description.Peripheral}
    {q : Peripheral} (h : q.BuiltFrom d p) :
    q.addressRange = occupied p.addressBlocks ⟨q.registers, q.clusters⟩ := by
  obtain ⟨-, built, done, x, hx, name, rfl⟩ := h
  obtain ⟨entries, interrupts, -, -, placed⟩ := buildPeripheral_ok done
  obtain ⟨i, -, -, id, -, rfl⟩ := exists_of_forall₂ placed.flip hx
  rfl

end ChipMap.Map
