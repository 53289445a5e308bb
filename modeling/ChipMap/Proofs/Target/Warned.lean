import ChipMap.Proofs.Map.Sweep
import ChipMap.Proofs.Target.Navigable

/-!
# Warnings are the overlaps

A map comes with warnings about registers of one peripheral that share bytes, and about peripherals
that do.  In the map of a document **they are all the overlaps there are and no others** (`Warned`,
`ofText_warned`): of the register elements that segments lead to, each under its path, and of the
peripherals by their addresses, both as far as words go.

### What is load-bearing

A sweep tells ranges apart by their names.  Those of the elements of a peripheral are paths, and
paths that are written alike have the same segments, so no name is listed twice
(`elementSpans_nodup`).  Warnings say their peripheral by its name too, which only one has
(`registerOverlaps_eq`).

That no name is listed twice is not read off the items, since one item could be listed twice.  It is
followed through the list itself: names that begin with different nodes differ, and so do those of
different elements of one node (`BeginsWith`).
-/

namespace ChipMap.Target

open Map (Device Peripheral Cluster Register NamedSpan Overlap Warning Located Reports)

/-! ### Names of elements -/

/-- A name that is a path whose first segment is known. -/
def BeginsWith (outer : Item) (lead : String) (s : Segment) (name : String) : Prop :=
  ∃ segments item n, Leads outer (s :: segments) item n ∧ name = lead ++ renderPath (s :: segments)

theorem BeginsWith.unique {outer : Item} (wellFormed : outer.WellFormed) {lead name : String}
    {s t : Segment} (h : BeginsWith outer lead s name) (h' : BeginsWith outer lead t name) :
    s = t := by
  obtain ⟨segments, item, n, leads, rfl⟩ := h
  obtain ⟨segments', item', n', leads', same⟩ := h'
  have paths := (String.append_right_inj lead).mp same
  have equal := leads.renderPath_inj leads' (List.cons_ne_nil _ _) (List.cons_ne_nil _ _) wellFormed
    paths
  exact (List.cons.inj equal).1

/-- The elements of a register are named by the register. -/
theorem beginsWith_of_register {outer : Item} {base : Nat} {lead name : String} {r : Register}
    (hr : r ∈ outer.registers) (h : name ∈ (r.elementSpans base lead).map (·.name)) :
    ∃ index, BeginsWith outer lead ⟨r.name, index⟩ name := by
  obtain ⟨s, hs, rfl⟩ := List.mem_map.mp h
  obtain ⟨index, distance, at_, rfl⟩ := mem_register_elementSpans_iff.mp hs
  exact ⟨index, [], _, _, .step (.register hr at_) .here, rfl⟩

/-- The elements inside an element of a cluster are named by it. -/
theorem beginsWith_of_element {outer : Item} {base : Nat} {lead name : String} {c : Cluster}
    (hc : c ∈ outer.clusters) {e : String × Nat} (he : e ∈ Map.elements c.addressOffset c.vector)
    (h : name ∈ (Map.elementSpans (clampedAdd base e.2) (lead ++ c.name ++ e.1 ++ ".") c.registers
      c.clusters).map (·.name)) :
    ∃ index, e.1 = numberText index ∧ BeginsWith outer lead ⟨c.name, index⟩ name := by
  obtain ⟨s, hs, rfl⟩ := List.mem_map.mp h
  obtain ⟨index, distance, at_, rfl⟩ := mem_elements_iff.mp he
  let inner : Item := .cluster c (outer.address + BitVec.ofNat 64 distance)
  obtain ⟨segments, r, a, n, more, leads, rfl⟩ :=
    exists_of_mem_elementSpans c.clusters inner rfl hs
  refine ⟨index, rfl, segments, _, _, .step (.cluster hc at_) leads, ?_⟩
  exact congrArg NamedSpan.name (listed_inner (s := ⟨c.name, index⟩) more ⟨n, r⟩)

/-- The elements of a cluster are named by the cluster. -/
theorem beginsWith_of_cluster {outer : Item} {base : Nat} {lead name : String} {c : Cluster}
    (hc : c ∈ outer.clusters) (h : name ∈ (c.elementSpans base lead).map (·.name)) :
    ∃ index, BeginsWith outer lead ⟨c.name, index⟩ name := by
  obtain ⟨s, hs, rfl⟩ := List.mem_map.mp h
  rw [Map.Cluster.elementSpans_eq] at hs
  obtain ⟨e, he, hs⟩ := List.mem_flatMap.mp hs
  obtain ⟨index, -, begins⟩ := beginsWith_of_element hc he (List.mem_map_of_mem hs)
  exact ⟨index, begins⟩

theorem numberText_inj {i j : Nat} (same : numberText (some i) = numberText (some j)) : i = j := by
  have bracketed := (String.append_left_inj "]").mp same
  exact Name.toString_inj ((String.append_right_inj "[").mp bracketed)

theorem elements_nodup (offset : Word) (vector : Option Map.Vector) :
    ((Map.elements offset vector).map (·.1)).Nodup := by
  cases vector with
  | none => simp [Map.elements]
  | some v =>
      rw [Map.elements, List.map_map]
      exact List.nodup_range.map fun i j same => numberText_inj same

section Distinct

variable {outer : Item} (wellFormed : outer.WellFormed) {base : Nat} {lead : String}

include wellFormed

/-- Names that begin with different nodes differ. -/
theorem disjoint_of_beginsWith {names names' : List String} {node node' : String}
    (other : node ≠ node') (h : ∀ name ∈ names, ∃ index, BeginsWith outer lead ⟨node, index⟩ name)
    (h' : ∀ name ∈ names', ∃ index, BeginsWith outer lead ⟨node', index⟩ name) :
    names.Disjoint names' := by
  intro name left right
  obtain ⟨index, begins⟩ := h name left
  obtain ⟨index', begins'⟩ := h' name right
  exact other (congrArg Segment.name (begins.unique wellFormed begins'))

omit wellFormed in
theorem register_names_nodup (r : Register) :
    ((r.elementSpans base lead).map (·.name)).Nodup := by
  have names : (r.elementSpans base lead).map (·.name) =
      ((Map.elements r.addressOffset r.vector).map (·.1)).map (lead ++ r.name ++ ·) := by
    simp [Register.elementSpans]
  rw [names]
  exact (elements_nodup _ _).map fun _ _ h => (String.append_right_inj _).mp h

/-- The elements of a cluster have different names, when those inside one of its elements do. -/
theorem cluster_names_nodup {c : Cluster} (hc : c ∈ outer.clusters)
    (inside : ∀ base lead,
      ((Map.elementSpans base lead c.registers c.clusters).map (·.name)).Nodup) :
    ((c.elementSpans base lead).map (·.name)).Nodup := by
  rw [Map.Cluster.elementSpans_eq, List.map_flatMap]
  refine List.nodup_flatMap.mpr ⟨fun e _ => inside _ _, ?_⟩
  have numbers := List.pairwise_map.mp (elements_nodup c.addressOffset c.vector)
  refine numbers.imp_of_mem fun {e e'} he he' other => ?_
  intro name h h'
  obtain ⟨index, number, begins⟩ := beginsWith_of_element hc he h
  obtain ⟨index', number', begins'⟩ := beginsWith_of_element hc he' h'
  have segments := begins.unique wellFormed begins'
  refine other ?_
  rw [number, number']
  exact congrArg numberText (congrArg Segment.index segments)

end Distinct

/-- **No name is listed twice** among the elements of a well-formed node, by induction over the
clusters. -/
theorem elementSpans_nodup (clusters : List Cluster) : ∀ outer : Item, outer.clusters = clusters →
    outer.WellFormed → ∀ base lead,
      ((Map.elementSpans base lead outer.registers outer.clusters).map (·.name)).Nodup := by
  induction clusters using Map.clusters_step with
  | step clusters ih =>
      intro outer same wellFormed base lead
      obtain ⟨registerNames, clusterNames, between⟩ :=
        List.nodup_append.mp (names_nodup wellFormed.level)
      rw [Map.elementSpans, List.map_append, List.map_flatMap, List.map_flatMap]
      refine List.Nodup.append ?_ ?_ ?_
      · refine List.nodup_flatMap.mpr ⟨fun r _ => register_names_nodup r, ?_⟩
        exact (List.pairwise_map.mp registerNames).imp_of_mem fun hr hr' other =>
          disjoint_of_beginsWith wellFormed other (fun _ => beginsWith_of_register hr)
            fun _ => beginsWith_of_register hr'
      · refine List.nodup_flatMap.mpr ⟨fun c hc => cluster_names_nodup wellFormed hc ?_, ?_⟩
        · exact ih c (same ▸ hc) (.cluster c 0) rfl (wellFormed.level.cluster hc).2
        · exact (List.pairwise_map.mp clusterNames).imp_of_mem fun hc hc' other =>
            disjoint_of_beginsWith wellFormed other (fun _ => beginsWith_of_cluster hc)
              fun _ => beginsWith_of_cluster hc'
      · intro name h h'
        obtain ⟨r, hr, h⟩ := List.mem_flatMap.mp h
        obtain ⟨c, hc, h'⟩ := List.mem_flatMap.mp h'
        have other := between _ (List.mem_map_of_mem hr) _ (List.mem_map_of_mem hc)
        exact disjoint_of_beginsWith wellFormed other (fun _ => beginsWith_of_register hr)
          (fun _ => beginsWith_of_cluster hc) h h'

/-! ### Warnings by their kinds -/

/-- The overlaps of registers that are reported for the peripheral of a name. -/
def registerOverlaps (name : String) (warnings : List Warning) : List Overlap :=
  warnings.filterMap fun
    | .registers peripheral o => if peripheral = name then some o else none
    | .peripherals _ => none

/-- The overlaps of peripherals that are reported. -/
def peripheralOverlaps (warnings : List Warning) : List Overlap :=
  warnings.filterMap fun
    | .registers _ _ => none
    | .peripherals o => some o

theorem registerOverlaps_warnings (name : String) (p : Peripheral) :
    registerOverlaps name p.warnings =
      if p.name = name then Map.overlaps p.elementSpans else [] := by
  unfold registerOverlaps Map.Peripheral.warnings
  rw [List.filterMap_map]
  split
  · next same => simp [same]
  · next other => simp [other]

/-- The reports under the name of a peripheral are its own, when names differ. -/
theorem registerOverlaps_flatMap {peripherals : List Peripheral}
    (names : (peripherals.map (·.name)).Nodup) {p : Peripheral} (hp : p ∈ peripherals) :
    registerOverlaps p.name (peripherals.flatMap Map.Peripheral.warnings) =
      Map.overlaps p.elementSpans := by
  have each : registerOverlaps p.name (peripherals.flatMap Map.Peripheral.warnings) =
      peripherals.flatMap fun q => if q.name = p.name then Map.overlaps q.elementSpans else [] := by
    rw [registerOverlaps, List.filterMap_flatMap]
    exact List.flatMap_congr fun q _ => registerOverlaps_warnings p.name q
  rw [each]
  clear each
  induction peripherals with
  | nil => cases hp
  | cons q rest ih =>
      obtain ⟨fresh, distinct⟩ := List.nodup_cons.mp names
      rw [List.flatMap_cons]
      rcases List.mem_cons.mp hp with rfl | hp
      · have others : (rest.flatMap fun q =>
            if q.name = p.name then Map.overlaps q.elementSpans else []) = [] := by
          refine List.flatMap_eq_nil_iff.mpr fun q hq => if_neg fun same => fresh ?_
          exact List.mem_map.mpr ⟨q, hq, same⟩
        rw [if_pos rfl, others, List.append_nil]
      · have other : q.name ≠ p.name := fun same => fresh (List.mem_map.mpr ⟨p, hp, same.symm⟩)
        rw [if_neg other, List.nil_append]
        exact ih distinct hp

/-- **What is reported for the registers of a peripheral** is what its elements have in common. -/
theorem registerOverlaps_eq {d : Device} (names : (d.peripherals.map (·.name)).Nodup)
    {p : Peripheral} (hp : p ∈ d.peripherals) :
    registerOverlaps p.name (Map.warnings d) = Map.overlaps p.elementSpans := by
  have none_ (found : List Overlap) : registerOverlaps p.name (found.map .peripherals) = [] := by
    simp [registerOverlaps]
  calc registerOverlaps p.name (Map.warnings d)
      = registerOverlaps p.name (d.peripherals.flatMap Map.Peripheral.warnings) ++
          registerOverlaps p.name
            ((Map.overlaps (d.peripherals.map Map.Peripheral.span)).map .peripherals) :=
        List.filterMap_append
    _ = Map.overlaps p.elementSpans := by
        rw [registerOverlaps_flatMap names hp, none_, List.append_nil]

/-- **What is reported for the peripherals** is what their addresses have in common. -/
theorem peripheralOverlaps_eq (d : Device) :
    peripheralOverlaps (Map.warnings d) = Map.overlaps (d.peripherals.map Map.Peripheral.span) := by
  have none_ : peripheralOverlaps (d.peripherals.flatMap Map.Peripheral.warnings) = [] := by
    rw [peripheralOverlaps, List.filterMap_flatMap]
    refine List.flatMap_eq_nil_iff.mpr fun p _ => ?_
    simp [Map.Peripheral.warnings]
  have all (found : List Overlap) : peripheralOverlaps (found.map .peripherals) = found := by
    simp [peripheralOverlaps]
  calc peripheralOverlaps (Map.warnings d)
      = peripheralOverlaps (d.peripherals.flatMap Map.Peripheral.warnings) ++
          peripheralOverlaps
            ((Map.overlaps (d.peripherals.map Map.Peripheral.span)).map .peripherals) :=
        List.filterMap_append
    _ = Map.overlaps (d.peripherals.map Map.Peripheral.span) := by
        rw [none_, all, List.nil_append]

/-! ### Warned of every overlap -/

/-- **The register elements of a peripheral**: each under its path, with its bytes from the start
of the peripheral.  A sum that is no word counts as the greatest one. -/
inductive IsElement (p : Peripheral) : List Segment → NamedSpan → Prop
  | element {segments : List Segment} {r : Register} {a : Word} {n : Nat} :
    Leads (.peripheral p) segments (.register r a) n →
      IsElement p segments ⟨renderPath segments, ⟨clamp n, clamp (n + r.byteSize)⟩⟩

/-- **The warnings of a map are its overlaps**, of registers and of peripherals, and each is
reported once. -/
structure Warned (c : Map.Checked) : Prop where
  /-- The overlaps of the register elements of each peripheral are reported under its name. -/
  registers : ∀ p ∈ c.device.peripherals,
    Reports (IsElement p) (registerOverlaps p.name c.warnings)
  /-- No other name is reported. -/
  owned : ∀ name o, .registers name o ∈ c.warnings → ∃ p ∈ c.device.peripherals, p.name = name
  /-- The overlaps of the peripherals are reported. -/
  peripherals : Reports
    (fun (i : Nat) s => ∃ p, c.device.peripherals[i]? = some p ∧ s = p.span)
    (peripheralOverlaps c.warnings)

/-- An element is listed as it is. -/
theorem listed_eq (segments : List Segment) (n : Nat) (r : Register) :
    listed 0 "" segments ⟨n, r⟩ =
      ⟨renderPath segments, ⟨clamp n, clamp (n + r.byteSize)⟩⟩ := by
  simp [listed, Map.Located.clampedSpan]

/-- **The elements of a peripheral are those that are listed.** -/
theorem mem_elementSpans_iff {p : Peripheral} {s : NamedSpan} :
    s ∈ p.elementSpans ↔ ∃ segments, IsElement p segments s := by
  constructor
  · intro hs
    obtain ⟨segments, r, a, n, -, leads, rfl⟩ :=
      exists_of_mem_elementSpans p.clusters (.peripheral p) rfl hs
    exact ⟨segments, listed_eq segments n r ▸ .element leads⟩
  · rintro ⟨segments, ⟨leads⟩⟩
    have more : segments ≠ [] := by
      rintro rfl
      cases leads
    rw [← listed_eq]
    exact leads.mem_elementSpans more rfl 0 ""

/-- **The path tells the elements apart.** -/
theorem IsElement.name_eq_iff {p : Peripheral} (level : (Item.peripheral p).WellFormed)
    {segments segments' : List Segment} {s s' : NamedSpan} (h : IsElement p segments s)
    (h' : IsElement p segments' s') : s.name = s'.name ↔ segments = segments' := by
  obtain ⟨leads⟩ := h
  obtain ⟨leads'⟩ := h'
  have more {segments : List Segment} {r : Register} {a : Word} {n : Nat}
      (h : Leads (.peripheral p) segments (.register r a) n) : segments ≠ [] := by
    rintro rfl
    cases h
  refine ⟨fun same => ?_, fun same => congrArg renderPath same⟩
  exact leads.renderPath_inj leads' (more leads) (more leads') level same

theorem index_eq_of_name_eq {peripherals : List Peripheral}
    (names : (peripherals.map (·.name)).Nodup) {i j : Nat} {p q : Peripheral}
    (hp : peripherals[i]? = some p) (hq : peripherals[j]? = some q) (same : p.name = q.name) :
    i = j := by
  have named {k : Nat} {p : Peripheral} (h : peripherals[k]? = some p) :
      (peripherals.map (·.name))[k]? = some p.name := by
    rw [List.getElem?_map, h, Option.map_some]
  have inside := (List.getElem?_eq_some_iff.mp (named hp)).1
  exact (List.getElem?_inj inside names).mp (by rw [named hp, named hq, same])

/-- **A well-formed map warns of its overlaps.** -/
theorem warned_of_wellFormed {d : Device} (wellFormed : d.WellFormed) : Warned (.ofDevice d) where
  registers p hp := by
    have level : (Item.peripheral p).WellFormed := (wellFormed.peripherals p hp).level
    have found : registerOverlaps p.name (Map.Checked.ofDevice d).warnings =
        Map.overlaps p.elementSpans := registerOverlaps_eq (nodup_of_apart wellFormed.apart) hp
    rw [found]
    refine Map.reports_overlaps ?_ (fun _ => mem_elementSpans_iff) ?_
    · exact elementSpans_nodup p.clusters (.peripheral p) rfl level 0 ""
    · exact fun i j a b hi hj => hi.name_eq_iff level hj
  owned name o ho := by
    rcases List.mem_append.mp ho with ho | ho
    · obtain ⟨p, hp, ho⟩ := List.mem_flatMap.mp ho
      obtain ⟨o', -, same⟩ := List.mem_map.mp ho
      exact ⟨p, hp, (Warning.registers.inj same).1⟩
    · obtain ⟨o', -, same⟩ := List.mem_map.mp ho
      cases same
  peripherals := by
    have found : peripheralOverlaps (Map.Checked.ofDevice d).warnings =
        Map.overlaps (d.peripherals.map Map.Peripheral.span) := peripheralOverlaps_eq d
    -- Peripherals are told apart by their places in the map, which their names stand for.
    have names := nodup_of_apart wellFormed.apart
    rw [found]
    refine Map.reports_overlaps ?_ (fun s => ?_) ?_
    · rw [List.map_map]
      exact names
    · rw [List.mem_map]
      constructor
      · rintro ⟨p, hp, rfl⟩
        obtain ⟨i, hi⟩ := List.mem_iff_getElem?.mp hp
        exact ⟨i, p, hi, rfl⟩
      · rintro ⟨i, p, hi, rfl⟩
        exact ⟨p, List.mem_of_getElem? hi, rfl⟩
    · rintro i j _ _ ⟨p, hp, rfl⟩ ⟨q, hq, rfl⟩
      constructor
      · exact index_eq_of_name_eq names hp hq
      · rintro rfl
        exact congrArg (·.span.name) (Option.some.inj (hp.symm.trans hq))

/-- **The map of a document warns of its overlaps.** -/
theorem ofText_warned {text : String} {checked : Map.Checked}
    (h : Map.ofText text = .ok checked) : Warned checked := by
  obtain ⟨device, wellFormed, rfl⟩ := Map.exists_wellFormed h
  exact warned_of_wellFormed wellFormed

/-! ### A small document with overlaps -/

/-- A document in which the elements of an array of clusters share bytes, and so do a peripheral and
one that derives from it. -/
def sharing : String :=
  "<device><name>D</name><peripherals><peripheral><name>P</name><baseAddress>0</baseAddress>
  <registers><cluster><dim>2</dim><dimIncrement>2</dimIncrement><name>C[%s]</name>
  <addressOffset>0</addressOffset><register><name>R</name><addressOffset>0</addressOffset>
  </register></cluster></registers></peripheral><peripheral derivedFrom='P'><name>Q</name>
  <baseAddress>4</baseAddress></peripheral></peripherals></device>"

/-- The overlap in each of the two peripherals. -/
def sharedRegisters : Overlap := ⟨"C[0].R", "C[1].R", ⟨2, 4⟩⟩

set_option maxRecDepth 4000 in
/-- **The warnings of the sample.** -/
theorem ofText_sharing : ∃ checked, Map.ofText sharing = .ok checked ∧ checked.warnings =
    [.registers "P" sharedRegisters, .registers "Q" sharedRegisters,
      .peripherals ⟨"P", "Q", ⟨4, 6⟩⟩] := by
  have written : sharing = String.ofList _ := rfl
  have read := Description.ofText_eq written
  refine map_eq_ok.mp ?_
  rw [Map.ofText, Map.resolvedOfText, read]
  cbv

theorem ofText_warned_sharing : ∃ checked, Map.ofText sharing = .ok checked ∧ Warned checked ∧
    checked.warnings = [.registers "P" sharedRegisters, .registers "Q" sharedRegisters,
      .peripherals ⟨"P", "Q", ⟨4, 6⟩⟩] := by
  obtain ⟨checked, h, warnings⟩ := ofText_sharing
  exact ⟨checked, h, ofText_warned h, warnings⟩

end ChipMap.Target
