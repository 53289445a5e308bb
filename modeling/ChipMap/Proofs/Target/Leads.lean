import ChipMap.Proofs.Map.WellFormed
import ChipMap.Proofs.Order.Siblings
import ChipMap.Proofs.Sequence
import ChipMap.Proofs.Target.Path
import ChipMap.Target.Item

/-!
# Where paths lead

An item holds the items right inside it, each under a segment: the name of the inner node, with the
number of an element exactly where the node is an array (`Item.Holds`).  Segments lead from an item
to the items at any depth, and the distances on the way add up (`Leads`).  Neither relation looks
anything up: they say what there is, and **the look-up finds all of it and nothing else**
(`Leads.follow`, `exists_of_follow`).

### What is load-bearing

A name is looked up by its first occurrence, registers before clusters.  In a well-formed map names
differ, those of registers and clusters among each other too, so the first occurrence is the only
one (`Item.Holds.enter`).  The other direction needs no well-formedness.

Addresses are words and wrap around, while distances are natural numbers.  A path carries both: the
address of an item is that of the first item plus the distance, as words (`Leads.address`).
-/

namespace ChipMap.Target

open Map (Device Peripheral Cluster Register Field Vector LevelWellFormed)
open Name (IsIdentifier)

/-! ### Items inside items -/

/-- **The elements of a node** at `offset`: the number that a path has to give, and the exact
distance of the element from the start of the outer item. -/
inductive ElementAt (offset : Word) : Option Vector → Option Nat → Nat → Prop
  | alone : ElementAt offset none none offset.toNat
  | element {v : Vector} {i : Nat} : i < v.count.toNat →
    ElementAt offset (some v) (some i) (offset.toNat + i * v.stride.toNat)

namespace Item

/-- The registers right inside an item.  A register or a field holds none. -/
def registers : Item → List Register
  | peripheral p => p.registers
  | cluster c _ => c.registers
  | _ => []

def clusters : Item → List Cluster
  | peripheral p => p.clusters
  | cluster c _ => c.clusters
  | _ => []

/-- **The items right inside an item**, with their segments and their distances. -/
inductive Holds : Item → Segment → Item → Nat → Prop
  | register {outer : Item} {r : Register} {index : Option Nat} {distance : Nat} :
    r ∈ outer.registers → ElementAt r.addressOffset r.vector index distance →
      Holds outer ⟨r.name, index⟩ (.register r (outer.address + BitVec.ofNat 64 distance)) distance
  | cluster {outer : Item} {c : Cluster} {index : Option Nat} {distance : Nat} :
    c ∈ outer.clusters → ElementAt c.addressOffset c.vector index distance →
      Holds outer ⟨c.name, index⟩ (.cluster c (outer.address + BitVec.ofNat 64 distance)) distance
  | field {r : Register} {f : Field} {a : Word} : f ∈ r.fields →
    Holds (.register r a) ⟨f.name, none⟩ (.field r f a) 0

/-- **An item of a well-formed map.** -/
def WellFormed : Item → Prop
  | peripheral p => LevelWellFormed p.registers p.clusters
  | cluster c _ => LevelWellFormed c.registers c.clusters
  | register r _ => r.WellFormed
  | field r f _ => r.WellFormed ∧ f ∈ r.fields

end Item

/-- **The items at any depth**: the segments that lead from an item to another one inside it,
and the sum of the distances on the way. -/
inductive Leads : Item → List Segment → Item → Nat → Prop
  | here {item : Item} : Leads item [] item 0
  | step {outer inner item : Item} {s : Segment} {segments : List Segment} {k n : Nat} :
    outer.Holds s inner k → Leads inner segments item n → Leads outer (s :: segments) item (k + n)

/-! ### Addresses -/

theorem ElementAt.index_lt {offset : Word} {vector : Option Vector} {index : Option Nat}
    {distance : Nat} (h : ElementAt offset vector index distance) :
    ∀ i ∈ index, i < Word.count := by
  cases h with
  | alone => simp
  | @element v i inside =>
      rintro _ ⟨⟩
      exact Nat.lt_trans inside v.count.isLt

/-- **The position of an element is its distance**, as far as words go. -/
theorem elementAddress_eq_ok_iff {name : String} {offset w : Word} {vector : Option Vector}
    {index : Option Nat} :
    elementAddress name offset vector index = .ok w ↔
      ∃ distance, ElementAt offset vector index distance ∧ w = BitVec.ofNat 64 distance := by
  have single : BitVec.ofNat 64 offset.toNat = offset := by simp
  have element (v : Vector) (i : Nat) : BitVec.ofNat 64 (offset.toNat + i * v.stride.toNat) =
      offset + BitVec.ofNat 64 i * v.stride := by
    simp [BitVec.ofNat_add, BitVec.ofNat_mul]
  constructor
  · intro h
    unfold elementAddress at h
    split at h
    · cases h
      exact ⟨_, .alone, single.symm⟩
    · cases h
    · cases h
    · next v i =>
      split at h
      · next inside =>
        cases h
        exact ⟨_, .element inside, (element v i).symm⟩
      · cases h
  · rintro ⟨distance, h, rfl⟩
    cases h with
    | alone => simp [elementAddress]
    | @element v i inside => simp [elementAddress, inside, element]

theorem Item.Holds.address {outer inner : Item} {s : Segment} {k : Nat}
    (h : outer.Holds s inner k) : inner.address = outer.address + BitVec.ofNat 64 k := by
  cases h with
  | register _ _ => rfl
  | cluster _ _ => rfl
  | field _ => simp [Item.address]

/-- **The distances on the way make up the address.** -/
theorem Leads.address {outer item : Item} {segments : List Segment} {n : Nat}
    (h : Leads outer segments item n) : item.address = outer.address + BitVec.ofNat 64 n := by
  induction h with
  | here => simp
  | step first _ ih => rw [ih, first.address, BitVec.ofNat_add, BitVec.add_assoc]

/-! ### Well-formed items -/

theorem nodup_of_apart {names : List String} (h : Name.Apart names) : names.Nodup :=
  List.Nodup.of_map _ h

/-- The registers and clusters of a well-formed level have different names. -/
theorem names_nodup {registers : List Register} {clusters : List Cluster}
    (h : LevelWellFormed registers clusters) :
    (registers.map (·.name) ++ clusters.map (·.name)).Nodup := by
  cases h with
  | level _ _ _ apart _ _ => exact nodup_of_apart apart

/-- The registers and clusters right inside a well-formed item are a well-formed level. -/
theorem Item.WellFormed.level {item : Item} (h : item.WellFormed) :
    LevelWellFormed item.registers item.clusters := by
  have nothing : LevelWellFormed [] [] := by
    refine .level ?_ ?_ ?_ ?_ ?_ ?_
    all_goals simp [Name.Apart]
  cases item with
  | peripheral p => exact h
  | cluster c a => exact h
  | register r a => exact nothing
  | field r f a => exact nothing

theorem Item.Holds.wellFormed {outer inner : Item} {s : Segment} {k : Nat}
    (h : outer.Holds s inner k) (wellFormed : outer.WellFormed) : inner.WellFormed := by
  cases h with
  | register hr _ => exact wellFormed.level.register hr
  | cluster hc _ => exact (wellFormed.level.cluster hc).2
  | field hf => exact ⟨wellFormed, hf⟩

theorem Leads.wellFormed {outer item : Item} {segments : List Segment} {n : Nat}
    (h : Leads outer segments item n) (wellFormed : outer.WellFormed) : item.WellFormed := by
  induction h with
  | here => exact wellFormed
  | step first _ ih => exact ih (first.wellFormed wellFormed)

/-- The segment of an item inside a well-formed one is read back. -/
theorem Item.Holds.segment {outer inner : Item} {s : Segment} {k : Nat}
    (h : outer.Holds s inner k) (wellFormed : outer.WellFormed) :
    IsIdentifier s.name ∧ ∀ i ∈ s.index, i < Word.count := by
  cases h with
  | register hr at_ => exact ⟨(wellFormed.level.register hr).identifier, at_.index_lt⟩
  | cluster hc at_ => exact ⟨(wellFormed.level.cluster hc).1, at_.index_lt⟩
  | field hf => exact ⟨(Register.WellFormed.fields wellFormed _ hf).identifier, by simp⟩

/-! ### What is there is found -/

/-- An element of a register of a well-formed level is found by the name of the register and its
number. -/
theorem enterNode_register (scope : String) (base : Word) {registers : List Register}
    {clusters : List Cluster} (level : LevelWellFormed registers clusters) {r : Register}
    (hr : r ∈ registers) {index : Option Nat} {distance : Nat}
    (at_ : ElementAt r.addressOffset r.vector index distance) :
    enterNode scope base registers clusters ⟨r.name, index⟩ =
      .ok (.register r (base + BitVec.ofNat 64 distance)) := by
  have position : elementAddress r.name r.addressOffset r.vector index =
      .ok (BitVec.ofNat 64 distance) := elementAddress_eq_ok_iff.mpr ⟨distance, at_, rfl⟩
  rw [enterNode, find?_of_nodup (List.nodup_append.mp (names_nodup level)).1 hr]
  dsimp only
  rw [position]
  rfl

/-- An element of a cluster is found likewise.  Registers are looked at first, but none of them has
the name of a cluster beside them. -/
theorem enterNode_cluster (scope : String) (base : Word) {registers : List Register}
    {clusters : List Cluster} (level : LevelWellFormed registers clusters) {c : Cluster}
    (hc : c ∈ clusters) {index : Option Nat} {distance : Nat}
    (at_ : ElementAt c.addressOffset c.vector index distance) :
    enterNode scope base registers clusters ⟨c.name, index⟩ =
      .ok (.cluster c (base + BitVec.ofNat 64 distance)) := by
  obtain ⟨-, clusterNames, between⟩ := List.nodup_append.mp (names_nodup level)
  have position : elementAddress c.name c.addressOffset c.vector index =
      .ok (BitVec.ofNat 64 distance) := elementAddress_eq_ok_iff.mpr ⟨distance, at_, rfl⟩
  have absent : registers.find? (fun r => r.name == c.name) = none := by
    rw [List.find?_eq_none]
    intro r hr same
    exact between _ (List.mem_map_of_mem hr) _ (List.mem_map_of_mem hc) (by simpa using same)
  rw [enterNode, absent, find?_of_nodup clusterNames hc]
  dsimp only
  rw [position]
  rfl

/-- **Each item inside a well-formed one is found by its segment.** -/
theorem Item.Holds.enter {outer inner : Item} {s : Segment} {k : Nat}
    (h : outer.Holds s inner k) (wellFormed : outer.WellFormed) (path scope : String) :
    outer.enter path scope s = .ok inner := by
  cases h with
  | @register _ r index distance hr at_ =>
      cases outer with
      | peripheral p => exact enterNode_register scope _ wellFormed hr at_
      | cluster c a => exact enterNode_register scope _ wellFormed hr at_
      | register r' a => cases hr
      | field r' f a => cases hr
  | @cluster _ c index distance hc at_ =>
      cases outer with
      | peripheral p => exact enterNode_cluster scope _ wellFormed hc at_
      | cluster c' a => exact enterNode_cluster scope _ wellFormed hc at_
      | register r' a => cases hc
      | field r' f a => cases hc
  | @field r f a hf =>
      have names : (r.fields.map (·.name)).Nodup :=
        nodup_of_apart (Register.WellFormed.apart wellFormed)
      simp only [Item.enter, find?_of_nodup names hf]
      rfl

/-- **Each item at any depth is found by its segments**, written as a path. -/
theorem Leads.follow {outer item : Item} {segments : List Segment} {n : Nat}
    (h : Leads outer segments item n) (wellFormed : outer.WellFormed) (path scope : String) :
    follow path scope outer (segments.map Segment.render) = .ok item := by
  induction h generalizing scope with
  | here => rfl
  | @step outer inner item s segments k n first _ ih =>
      obtain ⟨name, index⟩ := first.segment wellFormed
      rw [List.map_cons, Target.follow, Segment.read_render name index]
      change (outer.enter path scope s >>= fun inner =>
        Target.follow path (scope ++ "." ++ s.render) inner (segments.map Segment.render)) = _
      rw [first.enter wellFormed]
      exact ih (first.wellFormed wellFormed) _

/-- The segments that lead to an item are read back as they are written. -/
theorem Leads.segments {outer item : Item} {segments : List Segment} {n : Nat}
    (h : Leads outer segments item n) (wellFormed : outer.WellFormed) :
    ∀ s ∈ segments, IsIdentifier s.name ∧ ∀ i ∈ s.index, i < Word.count := by
  induction h with
  | here => simp
  | step first _ ih =>
      intro s hs
      rcases List.mem_cons.mp hs with rfl | hs
      · exact first.segment wellFormed
      · exact ih (first.wellFormed wellFormed) s hs

/-- **Segments that lead somewhere are known from their path.** -/
theorem Leads.renderPath_inj {outer item item' : Item} {segments segments' : List Segment}
    {n n' : Nat} (h : Leads outer segments item n) (h' : Leads outer segments' item' n')
    (some_segment : segments ≠ []) (some_segment' : segments' ≠ []) (wellFormed : outer.WellFormed)
    (same : renderPath segments = renderPath segments') : segments = segments' :=
  Target.renderPath_inj some_segment some_segment' (fun s hs => (h.segments wellFormed s hs).1)
    (fun s hs => (h'.segments wellFormed s hs).1) same

/-! ### What is found is there -/

/-- A register or cluster that a segment finds is one of the node. -/
theorem exists_of_enterNode {scope : String} {inner : Item} {s : Segment} (outer : Item)
    (h : enterNode scope outer.address outer.registers outer.clusters s = .ok inner) :
    ∃ k, outer.Holds s inner k := by
  obtain ⟨name, index⟩ := s
  unfold enterNode at h
  split at h
  · next r found =>
    obtain ⟨offset, hoffset, h⟩ := bind_eq_ok.mp h
    obtain ⟨distance, at_, rfl⟩ := elementAddress_eq_ok_iff.mp hoffset
    have same : r.name = name := by simpa using List.find?_some found
    obtain rfl := (Except.ok.inj h).symm
    subst same
    exact ⟨distance, .register (List.mem_of_find?_eq_some found) at_⟩
  · split at h
    · next c found =>
      obtain ⟨offset, hoffset, h⟩ := bind_eq_ok.mp h
      obtain ⟨distance, at_, rfl⟩ := elementAddress_eq_ok_iff.mp hoffset
      have same : c.name = name := by simpa using List.find?_some found
      obtain rfl := (Except.ok.inj h).symm
      subst same
      exact ⟨distance, .cluster (List.mem_of_find?_eq_some found) at_⟩
    · cases h

/-- **An item that a segment finds is right inside.** -/
theorem exists_of_enter {path scope : String} {outer inner : Item} {s : Segment}
    (h : outer.enter path scope s = .ok inner) : ∃ k, outer.Holds s inner k := by
  cases outer with
  | peripheral p => exact exists_of_enterNode (.peripheral p) h
  | cluster c a => exact exists_of_enterNode (.cluster c a) h
  | register r a =>
      obtain ⟨name, index⟩ := s
      unfold Item.enter at h
      dsimp only at h
      split at h
      · cases h
      · next f found =>
        split at h
        · cases h
        · next none_ =>
          obtain rfl := (Except.ok.inj h).symm
          have same : f.name = name := by simpa using List.find?_some found
          obtain rfl : index = none := by simpa using none_
          subst same
          exact ⟨0, .field (List.mem_of_find?_eq_some found)⟩
  | field r f a => cases h

/-- **An item that a path finds is inside**, and its segments are those of the path. -/
theorem exists_of_follow {path : String} {texts : List String} : ∀ {scope : String}
    {outer item : Item}, follow path scope outer texts = .ok item →
      ∃ segments n, texts.mapM Segment.read = .ok segments ∧ Leads outer segments item n := by
  induction texts with
  | nil =>
      intro scope outer item h
      obtain rfl := Except.ok.inj h
      exact ⟨[], 0, rfl, .here⟩
  | cons text rest ih =>
      intro scope outer item h
      obtain ⟨s, hs, h⟩ := bind_eq_ok.mp h
      obtain ⟨inner, hinner, h⟩ := bind_eq_ok.mp h
      obtain ⟨k, first⟩ := exists_of_enter hinner
      obtain ⟨segments, n, reads, leads⟩ := ih h
      refine ⟨s :: segments, k + n, ?_, .step first leads⟩
      rw [List.mapM_cons, hs]
      change (rest.mapM Segment.read >>= fun others => Except.ok (s :: others)) = _
      rw [reads]
      rfl

end ChipMap.Target
