import ChipMap.Proofs.Map.Arranged
import ChipMap.Proofs.Map.Extent
import ChipMap.Proofs.Target.Warned

/-!
# Address ranges that cover the registers

The overlaps of peripherals are found by their address ranges, and not by their registers.  A
peripheral whose document gives no address block has the extent of its registers and clusters as its
address range, so **none of its register elements lies outside, and two such peripherals with
register elements at a common address are reported** (`Covered`, `resolvedOfText_covered`).

### What is load-bearing

That the elements lie in the extent is said without addresses (`Peripheral.elementSpans_within`); at
any first address they still do.  The report is then that of the two address ranges: which of the
peripherals it names second is decided by these, not by the elements that meet.

An address block may be shorter than the registers in it, and then registers that meet outside of it
are missed.  So the law is for peripherals without any.
-/

namespace ChipMap.Target

open Map (Device Peripheral)

/-- A peripheral of a map whose description gives no address block. -/
def Blockless (d : Description.Device) (q : Peripheral) : Prop :=
  ∃ p, q.BuiltFrom d p ∧ p.addressBlocks = []

/-- The address range of a peripheral without address blocks is that of its registers and
clusters. -/
theorem Blockless.addressRange {d : Description.Device} {q : Peripheral} (h : Blockless d q) :
    q.addressRange = Map.extent q.registers q.clusters := by
  obtain ⟨p, built, none_⟩ := h
  rw [built.addressRange_eq, none_]
  rfl

/-- **The address ranges of a map cover the register elements**, where no address block says
otherwise. -/
structure Covered (d : Description.Device) (device : Device) : Prop where
  /-- Each peripheral of the map is built from one of the description. -/
  built : ∀ q ∈ device.peripherals, ∃ p, q.BuiltFrom d p
  /-- The register elements of a peripheral lie in its address range. -/
  inside : ∀ q ∈ device.peripherals, Blockless d q → ∀ s ∈ q.elementSpans,
    s.span.Within q.addressRange
  /-- Of two peripherals with register elements at a common address, the one whose addresses come
  later in the order of starts and names is reported as the second one of an overlap. -/
  warned : ∀ q ∈ device.peripherals, ∀ q' ∈ device.peripherals, q.name ≠ q'.name →
    Blockless d q → Blockless d q' → ∀ s ∈ q.elementSpans, ∀ s' ∈ q'.elementSpans,
      (s.span.shift q.baseAddress.toNat).Meets (s'.span.shift q'.baseAddress.toNat) →
        ∃ o, .peripherals o ∈ Map.warnings device ∧
          (q.span.Before q'.span ∧ o.second = q'.name ∨ q'.span.Before q.span ∧ o.second = q.name)

/-- Of two peripherals whose names differ, the addresses of one come first. -/
theorem before_or_before {q q' : Peripheral} (other : q.name ≠ q'.name) :
    q.span.Before q'.span ∨ q'.span.Before q.span := by
  rcases lt_trichotomy q.span.span.start q'.span.span.start with less | same | greater
  · exact .inl (.inl less)
  · rcases lt_or_gt_of_ne other with less | greater
    · exact .inl (.inr ⟨same, less⟩)
    · exact .inr (.inr ⟨same.symm, greater⟩)
  · exact .inr (.inl greater)

/-- **The second one of two peripherals whose addresses meet is reported.** -/
theorem exists_warning {device : Device} (warned : Warned (.ofDevice device)) {q q' : Peripheral}
    (hq : q ∈ device.peripherals) (hq' : q' ∈ device.peripherals) (first : q.span.Before q'.span)
    (meets : q.span.span.Meets q'.span.span) :
    ∃ o, .peripherals o ∈ Map.warnings device ∧ o.second = q'.name := by
  obtain ⟨i, hi⟩ := List.mem_iff_getElem?.mp hq
  obtain ⟨j, hj⟩ := List.mem_iff_getElem?.mp hq'
  have once := warned.peripherals.once i j _ _ ⟨q, hi, rfl⟩ ⟨q', hj, rfl⟩ first meets
  obtain ⟨o, ho⟩ := List.exists_mem_of_length_pos (Nat.lt_of_lt_of_eq Nat.one_pos once.symm)
  obtain ⟨reported, second⟩ := List.mem_filter.mp ho
  obtain ⟨w, hw, same⟩ := List.mem_filterMap.mp reported
  cases w with
  | registers name o' => cases same
  | peripherals o' =>
      obtain rfl := Option.some.inj same
      exact ⟨o', hw, of_decide_eq_true second⟩

/-- **The address ranges of a well-formed map cover the register elements.** -/
theorem covered_of_wellFormed {d : Description.Device} {device : Device}
    (wellFormed : device.WellFormed) (h : Map.ofDescription d = .ok device) : Covered d device where
  built q hq := Map.exists_builtFrom h hq
  inside q _ blockless s hs := Map.Peripheral.elementSpans_within blockless.addressRange hs
  warned q hq q' hq' other blockless blockless' s hs s' hs' meets := by
    have addresses := Map.Peripheral.addresses_within blockless.addressRange hs
    have addresses' := Map.Peripheral.addresses_within blockless'.addressRange hs'
    have meets := addresses.meets addresses' meets
    have warned := warned_of_wellFormed wellFormed
    rcases before_or_before other with first | first
    · obtain ⟨o, reported, second⟩ := exists_warning warned hq hq' first meets
      exact ⟨o, reported, .inl ⟨first, second⟩⟩
    · obtain ⟨o, reported, second⟩ := exists_warning warned hq' hq first meets.symm
      exact ⟨o, reported, .inr ⟨first, second⟩⟩

/-- **The address ranges of the map of a document cover the register elements** of all peripherals
without address blocks, and two of these with register elements at a common address are reported. -/
theorem resolvedOfText_covered {text : String} {d : Description.Device} {device : Device}
    (h : Map.resolvedOfText text = .ok d) (built : Map.ofDescription d = .ok device) :
    Covered d device := by
  have wellFormed := Map.ofDescription_wellFormed (Map.ranged_of_resolvedOfText h) built
  exact covered_of_wellFormed wellFormed built

/-- Two peripherals without address blocks, the second of which begins before the first one ends. -/
theorem resolvedOfText_covered_sharing : ∃ d device, Map.resolvedOfText sharing = .ok d ∧
    Map.ofDescription d = .ok device ∧ Covered d device ∧
      .peripherals ⟨"P", "Q", ⟨4, 6⟩⟩ ∈ Map.warnings device := by
  obtain ⟨checked, h, reported⟩ := ofText_sharing
  obtain ⟨d, device, resolved, built, rfl⟩ := Map.exists_of_ofText h
  refine ⟨d, device, resolved, built, resolvedOfText_covered resolved built, ?_⟩
  change _ ∈ (Map.Checked.ofDevice device).warnings
  rw [reported]
  simp

end ChipMap.Target
