import ChipMap.Proofs.Map.OfText
import ChipMap.Proofs.Target.Elements

/-!
# Paths name the items of a map

In the map of a document **each item has a path, and each path that is accepted has its item**
(`Navigable`, `ofText_navigable`).  Two more things are promised of the address of an item: it is
the sum of all distances on the way, as far as words go, and where that sum is a word, the search
for overlaps puts the register at the same place under the same name.

### What is load-bearing

The path of an item is the name of its peripheral and the segments that lead from there to the item
(`Leads`).  That the look-up by first occurrence finds it needs names that differ at every level,
and that its text is read back needs names that are identifiers: a well-formed map has both.

A path that is accepted need not be written as a path is printed, since numbers may be read from
other texts.  So the second direction is about the segments that are read from it, and not about its
text.
-/

namespace ChipMap.Target

open Map (Device Peripheral Register)

/-- **Paths and items agree.** -/
structure Navigable (d : Device) : Prop where
  /-- Every item is found under its path, at the sum of the distances on the way. -/
  found : ∀ p ∈ d.peripherals, ∀ segments item n, Leads (.peripheral p) segments item n →
    find d (renderPath (⟨p.name, none⟩ :: segments)) = .ok item ∧
      item.address = BitVec.ofNat 64 (p.baseAddress.toNat + n)
  /-- Every item that is found is there, under the segments that the path denotes. -/
  only : ∀ path item, find d path = .ok item → ∃ p ∈ d.peripherals, ∃ segments n,
    (pathParts path).mapM Segment.read = .ok (⟨p.name, none⟩ :: segments) ∧
      Leads (.peripheral p) segments item n
  /-- Every register whose exact address is a word is listed under its path, once and at that
  address. -/
  listed : ∀ p ∈ d.peripherals, ∀ segments r address n,
    Leads (.peripheral p) segments (.register r address) n →
      p.baseAddress.toNat + n < Word.count →
        ∃ s ∈ p.elementSpans, s.name = renderPath segments ∧
          (∀ t ∈ p.elementSpans, t.name = s.name → t = s) ∧
            address.toNat = p.baseAddress.toNat + s.span.start

/-- A path that begins with a peripheral is followed from there. -/
theorem find_renderPath {d : Device} (wellFormed : d.WellFormed) {p : Peripheral}
    (hp : p ∈ d.peripherals) {segments : List Segment} {item : Item} {n : Nat}
    (h : Leads (.peripheral p) segments item n) :
    find d (renderPath (⟨p.name, none⟩ :: segments)) = .ok item := by
  have level : (Item.peripheral p).WellFormed := (wellFormed.peripherals p hp).level
  have identifier := (wellFormed.peripherals p hp).identifier
  have names : ∀ s ∈ (⟨p.name, none⟩ :: segments : List Segment), Name.IsIdentifier s.name := by
    intro s hs
    rcases List.mem_cons.mp hs with rfl | hs
    · exact identifier
    · exact (h.segments level s hs).1
  have first : Segment.read (Segment.render ⟨p.name, none⟩) = .ok ⟨p.name, none⟩ :=
    Segment.read_render identifier (by simp)
  have entered :
      enterDevice d (renderPath (⟨p.name, none⟩ :: segments)) ⟨p.name, none⟩ = .ok p := by
    have nodup := nodup_of_apart wellFormed.apart
    simp [enterDevice, find?_of_nodup nodup hp]
  rw [find, pathParts_renderPath (by simp) names, List.map_cons]
  dsimp only
  rw [first]
  change (enterDevice d _ ⟨p.name, none⟩ >>= _) = _
  rw [entered]
  exact h.follow level _ _

/-- The item of a path is inside the peripheral of its first name. -/
theorem exists_of_find {d : Device} {path : String} {item : Item} (h : find d path = .ok item) :
    ∃ p ∈ d.peripherals, ∃ segments n,
      (pathParts path).mapM Segment.read = .ok (⟨p.name, none⟩ :: segments) ∧
        Leads (.peripheral p) segments item n := by
  unfold find at h
  split at h
  · cases h
  · next first rest parts =>
    obtain ⟨⟨name, index⟩, hfirst, h⟩ := bind_eq_ok.mp h
    obtain ⟨p, hp, h⟩ := bind_eq_ok.mp h
    obtain ⟨segments, n, reads, leads⟩ := exists_of_follow h
    unfold enterDevice at hp
    split at hp
    · cases hp
    · next plain =>
      split at hp
      · next q found =>
        obtain rfl := Except.ok.inj hp
        have same : q.name = name := by simpa using List.find?_some found
        obtain rfl : index = none := by simpa using plain
        subst same
        refine ⟨q, List.mem_of_find?_eq_some found, segments, n, ?_, leads⟩
        rw [parts, List.mapM_cons, hfirst]
        change (rest.mapM Segment.read >>= fun others => Except.ok (_ :: others)) = _
        rw [reads]
        rfl
      · cases hp

/-- An element of a peripheral that has the path of a register is that register, since a written
path tells its segments. -/
theorem eq_listed_of_name_eq {p : Peripheral} (level : (Item.peripheral p).WellFormed)
    {segments : List Segment} {r : Register} {address : Word} {n : Nat}
    (h : Leads (.peripheral p) segments (.register r address) n) {t : Map.NamedSpan}
    (ht : t ∈ p.elementSpans) (same : t.name = renderPath segments) :
    t = listed 0 "" segments ⟨n, r⟩ := by
  have more : segments ≠ [] := by
    rintro rfl
    cases h
  obtain ⟨segments', r', address', n', more', leads', rfl⟩ :=
    exists_of_mem_elementSpans p.clusters (.peripheral p) rfl ht
  have paths : renderPath segments' = renderPath segments := by
    simpa [listed] using same
  obtain rfl := leads'.renderPath_inj h more' more level paths
  obtain ⟨items, rfl⟩ := leads'.unique h level
  obtain ⟨rfl, -⟩ := Item.register.inj items
  rfl

/-- **Paths and items of a well-formed map agree.** -/
theorem navigable_of_wellFormed {d : Device} (wellFormed : d.WellFormed) : Navigable d where
  found p hp segments item n h := by
    refine ⟨find_renderPath wellFormed hp h, ?_⟩
    rw [h.address, BitVec.ofNat_add]
    simp [Item.address]
  only path item := exists_of_find
  listed p hp segments r address n h inside := by
    have level : (Item.peripheral p).WellFormed := (wellFormed.peripherals p hp).level
    have more : segments ≠ [] := by
      rintro rfl
      cases h
    have name : (Target.listed 0 "" segments ⟨n, r⟩).name = renderPath segments := by
      simp [Target.listed]
    refine ⟨Target.listed 0 "" segments ⟨n, r⟩, h.mem_elementSpans more rfl 0 "", name, ?_, ?_⟩
    · intro t ht same
      exact eq_listed_of_name_eq level h ht (same.trans name)
    · have start : (Target.listed 0 "" segments ⟨n, r⟩).span.start = n := by
        have exact_ : clamp n = n := clamp_of_le (by
          have : Word.count = Word.greatest + 1 := rfl
          omega)
        simpa [Target.listed, Map.Located.clampedSpan] using exact_
      have position : address = p.baseAddress + BitVec.ofNat 64 n := h.address
      have sum : p.baseAddress.toNat + n < 2 ^ 64 := inside
      rw [start, position, BitVec.toNat_add, BitVec.toNat_ofNat, Nat.add_mod_mod,
        Nat.mod_eq_of_lt sum]

/-- **Paths and items of the map of a document agree.** -/
theorem ofText_navigable {text : String} {checked : Map.Checked}
    (h : Map.ofText text = .ok checked) : Navigable checked.device := by
  obtain ⟨device, wellFormed, rfl⟩ := Map.exists_wellFormed h
  exact navigable_of_wellFormed wellFormed

/-! ### A small document with an array -/

/-- A document with an array of two clusters, each with a register of two fields. -/
def nested : String :=
  "<device><name>D</name><peripherals><peripheral><name>P</name>
  <baseAddress>0x40000000</baseAddress><registers><cluster><dim>2</dim>
  <dimIncrement>16</dimIncrement><name>C[%s]</name><addressOffset>8</addressOffset><register>
  <name>R</name><addressOffset>4</addressOffset><fields><field><name>F</name>
  <bitRange>[3:0]</bitRange></field><field><name>G</name><bitRange>[7:4]</bitRange></field>
  </fields></register></cluster></registers></peripheral></peripherals></device>"

/-- The register of the sample, whose fields are `low` and `high`. -/
def halves (low high : Map.Field) : Register :=
  { Map.Register.plain "R" 4 32 with fields := [low, high] }

def low : Map.Field := ⟨"F", none, ⟨0, 4⟩, .readWrite, .modify, none, none, []⟩

def high : Map.Field := ⟨"G", none, ⟨4, 8⟩, .readWrite, .modify, none, none, []⟩

def banks : Map.Cluster := ⟨"C", none, 8, some ⟨2, 16⟩, [halves low high], []⟩

/-- The peripheral of the sample. -/
def nest : Peripheral where
  name := "P"
  description := none
  groupName := none
  baseAddress := 0x40000000
  addressRange := ⟨8, 32⟩
  interrupts := []
  registers := []
  clusters := [banks]

set_option maxRecDepth 4000 in
/-- **The map of the sample.** -/
theorem ofText_nested : ∃ checked, Map.ofText nested = .ok checked ∧
    checked.device.peripherals = [nest] ∧ checked.warnings = [] := by
  have written : nested = String.ofList _ := rfl
  have read := Description.ofText_eq written
  refine Map.exists_of_parts ?_
  rw [Map.ofText, Map.resolvedOfText, read]
  cbv

/-- The lower field in the second element of the array. -/
theorem leads_low : Leads (.peripheral nest) [⟨"C", some 1⟩, ⟨"R", none⟩, ⟨"F", none⟩]
    (.field (halves low high) low 0x4000001C) 28 := by
  have inside : ElementAt banks.addressOffset banks.vector (some 1) 24 :=
    .element (v := ⟨2, 16⟩) (i := 1) (by decide)
  have start : ElementAt (halves low high).addressOffset (halves low high).vector none 4 := .alone
  have first : (Item.peripheral nest).Holds ⟨"C", some 1⟩ (.cluster banks 0x40000018) 24 :=
    .cluster List.mem_cons_self inside
  have second : (Item.cluster banks 0x40000018).Holds ⟨"R", none⟩
      (.register (halves low high) 0x4000001C) 4 := .register List.mem_cons_self start
  have member : low ∈ (halves low high).fields := List.mem_cons_self
  have third : (Item.register (halves low high) 0x4000001C).Holds ⟨"F", none⟩
      (.field (halves low high) low 0x4000001C) 0 := .field member
  exact .step first (.step second (.step third .here))

theorem ofText_navigable_nested : ∃ checked, Map.ofText nested = .ok checked ∧
    Navigable checked.device ∧
      find checked.device "P.C[1].R.F" = .ok (.field (halves low high) low 0x4000001C) := by
  obtain ⟨checked, h, peripherals, -⟩ := ofText_nested
  have navigable := ofText_navigable h
  have p : nest ∈ checked.device.peripherals := by simp [peripherals]
  exact ⟨checked, h, navigable, (navigable.found nest p _ _ _ leads_low).1⟩

end ChipMap.Target
