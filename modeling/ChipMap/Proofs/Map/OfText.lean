import Mathlib
import ChipMap.Proofs.Description.Decoded
import ChipMap.Proofs.Inheritance.Establish
import ChipMap.Proofs.Map.Build

/-!
# The map of a document is well formed

The three steps from a text to a map each keep what the next one needs: the fields of a description
have a bit each, resolution keeps that, and the map of such a description is well formed.

### What is load-bearing

The range of a resolved field is its own one or that of a node it derives from, so it was checked
when the document was read (`rangedLaws`).  Nothing else that a well-formed map promises comes from
the text: names, order and bounds are the work of the builder.

`sample` is one small document that the theorems about texts are tried on.
-/

namespace ChipMap.Inheritance

open Description

/-! ### Ranges under resolution -/

/-- A field that takes over what it lacks has its own range or that of its base, and never a mixture
of both. -/
theorem ranged_orElse {own base : Field} (hown : own.Ranged) (hbase : base.Ranged) :
    (own.orElse base).Ranged := by
  intro r hr
  rcases Option.or_eq_some_iff.mp hr with hr | ⟨-, hr⟩
  · exact hown r hr
  · exact hbase r hr

/-- **The laws of ranges**: every field has a bit, and nothing is said of other nodes. -/
def rangedLaws : Laws where
  field :=
    { raw := Field.Ranged
      done := Field.Ranged
      alone := fun h _ => h
      behind := ranged_orElse
      merge := ranged_orElse }
  register := .trivial
  cluster := .trivial
  peripheral := .trivial
  withFields := id
  withChildren := id

/-- **Resolution keeps the ranges of fields.** -/
theorem resolve_ranged {d r : Device} (ranged : d.Ranged) (h : resolve d = .ok r) : r.Ranged := by
  have raw : ∀ p ∈ d.peripherals, rangedLaws.RawPeripheral p := by
    intro p hp
    refine ⟨trivial, fun c hc => ?_⟩
    exact (ranged p hp c hc).mono (fun _ hr => ⟨trivial, hr⟩) fun _ h => h
  intro p hp c hc
  exact ((Laws.resolve_done raw h p hp).2 c hc).mono (fun _ hr => hr.2) fun _ h => h

end ChipMap.Inheritance

namespace ChipMap.Map

/-! ### Texts -/

/-- What a text that is resolved is described as. -/
theorem exists_of_resolvedOfText {text : String} {d : Description.Device}
    (h : resolvedOfText text = .ok d) :
    ∃ described, Description.ofText text = .ok described ∧ Inheritance.resolve described = .ok d := by
  obtain ⟨described, read, resolved⟩ := bind_eq_ok.mp h
  exact ⟨described, mapError_eq_ok.mp read, mapError_eq_ok.mp resolved⟩

/-- **All fields of a resolved document have a bit.** -/
theorem ranged_of_resolvedOfText {text : String} {d : Description.Device}
    (h : resolvedOfText text = .ok d) : d.Ranged := by
  obtain ⟨described, read, resolved⟩ := exists_of_resolvedOfText h
  exact Inheritance.resolve_ranged (Description.ofText_ranged read) resolved

/-- What a text that has a map is on the way. -/
theorem exists_of_ofText {text : String} {checked : Checked} (h : ofText text = .ok checked) :
    ∃ resolved device, resolvedOfText text = .ok resolved ∧ ofDescription resolved = .ok device ∧
      checked = .ofDevice device := by
  obtain ⟨resolved, hresolved, h⟩ := bind_eq_ok.mp h
  obtain ⟨device, built, h⟩ := bind_eq_ok.mp h
  exact ⟨resolved, device, hresolved, mapError_eq_ok.mp built, (Except.ok.inj h).symm⟩

/-- A text has the map whose parts are known.  The parts are what is compared when a document is
evaluated. -/
theorem exists_of_parts {text : String} {peripherals : List Peripheral} {warnings : List Warning}
    (parts : (ofText text).map (fun c => (c.device.peripherals, c.warnings)) =
      .ok (peripherals, warnings)) :
    ∃ checked, ofText text = .ok checked ∧ checked.device.peripherals = peripherals ∧
      checked.warnings = warnings := by
  obtain ⟨checked, h, same⟩ := map_eq_ok.mp parts
  exact ⟨checked, h, Prod.mk.inj same⟩

/-- What a text has is the checked map of a well-formed device. -/
theorem exists_wellFormed {text : String} {checked : Checked} (h : ofText text = .ok checked) :
    ∃ device : Device, device.WellFormed ∧ checked = .ofDevice device := by
  obtain ⟨resolved, device, hresolved, built, rfl⟩ := exists_of_ofText h
  exact ⟨device, ofDescription_wellFormed (ranged_of_resolvedOfText hresolved) built, rfl⟩

/-- **The map of a document is well formed** at every level. -/
theorem ofText_wellFormed {text : String} {checked : Checked} (h : ofText text = .ok checked) :
    checked.device.WellFormed := by
  obtain ⟨device, wellFormed, rfl⟩ := exists_wellFormed h
  exact wellFormed

/-! ### A small document -/

/-- A document with two registers whose names differ in case only. -/
def sample : String :=
  "<device><name>D</name><peripherals><peripheral><name>P</name><baseAddress>0</baseAddress>
  <registers><register><name>R</name><addressOffset>0</addressOffset><fields><field>
  <name>F</name><bitRange>[3:0]</bitRange></field></fields></register>
  <register derivedFrom='R'><name>r</name><addressOffset>4</addressOffset></register>
  </registers></peripheral></peripherals></device>"

/-- A register without fields. -/
def Register.plain (name : String) (addressOffset : Word) (size : Nat) : Register where
  name
  displayName := none
  description := none
  addressOffset
  size
  access := .readWrite
  protection := none
  resetValue := 0
  resetMask := BitVec.ofNat 64 (2 ^ size - 1)
  writeEffect := .modify
  writeConstraint := none
  readEffect := none
  vector := none
  fields := []

/-- The peripheral of the sample: the second register has the field of the first one and a new
name. -/
def twins : Peripheral where
  name := "P"
  description := none
  groupName := none
  baseAddress := 0
  addressRange := ⟨0, 8⟩
  interrupts := []
  registers :=
    let fields := [⟨"F", none, ⟨0, 4⟩, .readWrite, .modify, none, none, []⟩]
    [{ Register.plain "R" 0 32 with fields }, { Register.plain "r_1" 4 32 with fields }]
  clusters := []

set_option maxRecDepth 4000 in
/-- **The map of the sample**, for which no overlap is reported. -/
theorem ofText_sample : ∃ checked, ofText sample = .ok checked ∧
    checked.device.peripherals = [twins] ∧ checked.warnings = [] := by
  have written : sample = String.ofList _ := rfl
  have read := Description.ofText_eq written
  refine exists_of_parts ?_
  rw [ofText, resolvedOfText, read]
  cbv

theorem ofText_wellFormed_sample : ∃ checked, ofText sample = .ok checked ∧
    checked.device.WellFormed := by
  obtain ⟨checked, h, -⟩ := ofText_sample
  exact ⟨checked, h, ofText_wellFormed h⟩

end ChipMap.Map
