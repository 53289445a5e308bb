import ChipMap.Proofs.Map.OfText

/-!
# Arrays have as many elements as they say

A description may name the elements of an array one by one, and it says how many there are.  The
reader compares the two, and a node takes an array over as a whole: **every array of a resolved
document has as many elements as it says** (`resolvedOfText_counted`), so one node for each name and
one array of the number that is given are the same elements.

### What is load-bearing

Names without a number of their own are made up, one for each element, so only written names can be
too few or too many.  Count, distance and names are one attribute, and a node that has an array of
its own takes none of the three from its base.
-/

namespace ChipMap.Description

/-- **An array has as many names as elements**, written or made up. -/
def Dimension.Counted (d : Dimension) : Prop := d.elements.length = d.count.toNat

/-- The arrays that a register or cluster has inside, and the one that it is, are counted. -/
def Item.Counted (item : Item) : Prop :=
  item.All (fun r => ∀ d ∈ r.dimension, d.Counted) fun info => ∀ d ∈ info.dimension, d.Counted

/-- All arrays of registers and clusters of a description are counted. -/
def Device.Counted (d : Device) : Prop := ∀ p ∈ d.peripherals, ∀ c ∈ p.children, c.Counted

/-! ### Reading -/

/-- **An array that is read is counted.** -/
theorem readDimension_counted {s : Scope} {o : Option Dimension} (h : readDimension s = .ok o) :
    ∀ d ∈ o, d.Counted := by
  obtain ⟨count, -, h⟩ := bind_eq_ok.mp h
  cases count with
  | none =>
      obtain rfl := Except.ok.inj h
      exact fun d none_ => nomatch none_
  | some count =>
      obtain ⟨increment, -, h⟩ := bind_eq_ok.mp h
      obtain ⟨indices, -, h⟩ := bind_eq_ok.mp h
      cases indices with
      | none =>
          obtain rfl := Except.ok.inj h
          rintro _ ⟨⟩
          simp [Dimension.Counted, Dimension.elements]
      | some texts =>
          dsimp only at h
          split at h
          · cases h
          · next same =>
            obtain rfl := Except.ok.inj h
            rintro _ ⟨⟩
            exact not_not.mp same

theorem readRegister_counted {s : Scope} {r : Register} (h : readRegister s = .ok r) :
    ∀ d ∈ r.dimension, d.Counted := by
  obtain ⟨addressOffset, -, h⟩ := bind_eq_ok.mp h
  obtain ⟨fields, -, h⟩ := bind_eq_ok.mp h
  obtain ⟨name, -, h⟩ := bind_eq_ok.mp h
  obtain ⟨properties, -, h⟩ := bind_eq_ok.mp h
  obtain ⟨dimension, hdimension, h⟩ := bind_eq_ok.mp h
  obtain ⟨writeEffect, -, h⟩ := bind_eq_ok.mp h
  obtain ⟨writeConstraint, -, h⟩ := bind_eq_ok.mp h
  obtain ⟨readEffect, -, h⟩ := bind_eq_ok.mp h
  cases Except.ok.inj h
  exact readDimension_counted hdimension

theorem readClusterInfo_counted {s : Scope} {info : ClusterInfo}
    (h : readClusterInfo s = .ok info) : ∀ d ∈ info.dimension, d.Counted := by
  obtain ⟨addressOffset, -, h⟩ := bind_eq_ok.mp h
  obtain ⟨name, -, h⟩ := bind_eq_ok.mp h
  obtain ⟨properties, -, h⟩ := bind_eq_ok.mp h
  obtain ⟨dimension, hdimension, h⟩ := bind_eq_ok.mp h
  cases Except.ok.inj h
  exact readDimension_counted hdimension

/-- **All arrays of a document are counted.** -/
theorem ofText_counted {text : String} {d : Device} (h : ofText text = .ok d) : d.Counted := by
  intro p hp
  obtain ⟨s, hs⟩ := exists_of_ofText h hp
  obtain ⟨-, nodes, hnodes⟩ := readPeripheral_ok hs
  exact readItems_all (fun _ _ => readRegister_counted) (fun _ _ => readClusterInfo_counted) hnodes

end ChipMap.Description

namespace ChipMap.Inheritance

open Description

/-- What holds of a value and of the one that stands in for it holds of the one that counts. -/
theorem forall_mem_or {β : Type} {law : β → Prop} {own base : Option β} (hown : ∀ x ∈ own, law x)
    (hbase : ∀ x ∈ base, law x) : ∀ x ∈ own.or base, law x := by
  intro x hx
  rcases Option.or_eq_some_iff.mp hx with hx | ⟨-, hx⟩
  · exact hown x hx
  · exact hbase x hx

/-- **A law of an attribute that a node takes over as a whole**, where it has none of its own.  The
law is the same before and after resolution. -/
def Established.ofPart {α β : Type} {derivedFrom : α → Option String} {plain : α → α}
    {orElse : α → α → α} (law : β → Prop) (part : α → Option β)
    (alone : ∀ a, part (plain a) = part a)
    (merged : ∀ a b, part (orElse a b) = (part a).or (part b)) :
    Established α derivedFrom plain orElse where
  raw a := ∀ x ∈ part a, law x
  done a := ∀ x ∈ part a, law x
  alone raw _ := by rwa [alone]
  behind own base := by
    rw [merged]
    exact forall_mem_or own base
  merge own base := by
    rw [merged]
    exact forall_mem_or own base

/-- **The laws of arrays** of registers and clusters. -/
def dimensionLaws : Laws where
  field := .trivial
  register := .ofPart Dimension.Counted (·.dimension) (fun _ => rfl) fun _ _ => rfl
  cluster := .ofPart Dimension.Counted (·.dimension) (fun _ => rfl) fun _ _ => rfl
  peripheral := .trivial
  withFields h := h
  withChildren h := h

/-- **Resolution keeps arrays counted.** -/
theorem resolve_counted {d r : Device} (counted : d.Counted) (h : resolve d = .ok r) :
    r.Counted := by
  have raw : ∀ p ∈ d.peripherals, dimensionLaws.RawPeripheral p := fun p hp =>
    ⟨trivial, fun c hc => (counted p hp c hc).mono (fun _ hr => ⟨hr, fun _ _ => trivial⟩)
      fun _ h => h⟩
  intro p hp c hc
  exact ((Laws.resolve_done raw h p hp).2 c hc).mono (fun _ hr => hr.1) fun _ h => h

end ChipMap.Inheritance

namespace ChipMap.Map

/-- **All arrays of a resolved document are counted.** -/
theorem resolvedOfText_counted {text : String} {d : Description.Device}
    (h : resolvedOfText text = .ok d) : d.Counted := by
  obtain ⟨described, read, resolved⟩ := exists_of_resolvedOfText h
  exact Inheritance.resolve_counted (Description.ofText_counted read) resolved

end ChipMap.Map
