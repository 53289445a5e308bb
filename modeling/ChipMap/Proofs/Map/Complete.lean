import ChipMap.Proofs.Map.OfText

/-!
# Positions are never missing

A node that derives from another one may leave out where it stands: its base address, its offset, or
its bit range.  The map needs all of them, and its builder has a fault for one that is missing.

`resolvedOfText_complete`: **what a document resolves to has every position at any depth, so the
builder never misses one.**

### What is load-bearing

The reader accepts a missing position only where there is a reference (`Anchored`), and a node with
a reference resolves behind a base.  The base is resolved too and so has its position, be it the
referent, a node that the parent inherits, or both merged (`Established.ofPosition`).

The builder looks for positions in four places, and all its other faults are of other kinds
(`Supplied`).  The lemmas of the builder therefore say of each step what has to be there for it, and
nothing about what it builds.
-/

namespace ChipMap.Description

/-! ### Descriptions with positions -/

/-- **A description whose positions are there unless they may be inherited**: a node that derives
from nothing has its own. -/
def Device.Anchored (d : Device) : Prop :=
  ∀ p ∈ d.peripherals, (p.derivedFrom = none → p.baseAddress.isSome) ∧
    ∀ c ∈ p.children, c.All
      (fun r => (r.derivedFrom = none → r.addressOffset.isSome) ∧
        ∀ f ∈ r.fields, f.derivedFrom = none → f.bitRange.isSome)
      fun info => info.derivedFrom = none → info.addressOffset.isSome

/-- A register or cluster has its offset, at any depth, and each of its fields a bit range. -/
def Item.Complete (item : Item) : Prop :=
  item.All (fun r => r.addressOffset.isSome ∧ ∀ f ∈ r.fields, f.bitRange.isSome)
    fun info => info.addressOffset.isSome

/-- **A description with all positions**: every peripheral has a base address, every register and
cluster an offset, and every field a bit range. -/
def Device.Complete (d : Device) : Prop :=
  ∀ p ∈ d.peripherals, p.baseAddress.isSome ∧ ∀ c ∈ p.children, c.Complete

/-- A word that may be left out in a node with a reference is there in one without. -/
theorem Scope.derivableWord_isSome {s : Scope} {derivedFrom : Option String} {name : String}
    {w : Option Word} (h : s.derivableWord derivedFrom name = .ok w) (alone : derivedFrom = none) :
    w.isSome := by
  subst alone
  rw [derivableWord, map_eq_pure_bind] at h
  obtain ⟨word, -, h⟩ := bind_eq_ok.mp h
  exact Except.ok.inj h ▸ rfl

theorem readField_anchored {s : Scope} {f : Field} (h : readField s = .ok f)
    (alone : f.derivedFrom = none) : f.bitRange.isSome := by
  have present := (readField_ok h).2
  rw [alone, Option.isNone_none, Bool.and_true, Bool.not_eq_true] at present
  exact Option.isNone_eq_false_iff.mp present

/-- A cluster that derives from nothing is read with an offset. -/
theorem readClusterInfo_anchored {s : Scope} {info : ClusterInfo}
    (h : readClusterInfo s = .ok info) : info.derivedFrom = none → info.addressOffset.isSome := by
  obtain ⟨addressOffset, hoffset, h⟩ := bind_eq_ok.mp h
  obtain ⟨name, -, h⟩ := bind_eq_ok.mp h
  obtain ⟨properties, -, h⟩ := bind_eq_ok.mp h
  obtain ⟨dimension, -, h⟩ := bind_eq_ok.mp h
  cases Except.ok.inj h
  exact Scope.derivableWord_isSome hoffset

/-- **Every document has the positions that may not be inherited.** -/
theorem ofText_anchored {text : String} {d : Device} (h : ofText text = .ok d) : d.Anchored := by
  intro p hp
  obtain ⟨s, hs⟩ := exists_of_ofText h hp
  obtain ⟨base, nodes, hnodes⟩ := readPeripheral_ok hs
  refine ⟨Scope.derivableWord_isSome base, readItems_all (fun s r hr => ?_)
    (fun _ _ => readClusterInfo_anchored) hnodes⟩
  obtain ⟨offset, fields⟩ := readRegister_ok hr
  refine ⟨Scope.derivableWord_isSome offset, fun f hf => ?_⟩
  obtain ⟨inner, hinner⟩ := fields f hf
  exact readField_anchored hinner

end ChipMap.Description

namespace ChipMap.Inheritance

open Description

/-! ### Positions under resolution -/

/-- **An attribute that only a node with a reference may lack** is there when the node is resolved,
as resolution takes an absent one over. -/
def Established.ofPosition {α β : Type} {derivedFrom : α → Option String} {plain : α → α}
    {orElse : α → α → α} (position : α → Option β) (alone : ∀ a, position (plain a) = position a)
    (merged : ∀ a b, position (orElse a b) = (position a).or (position b)) :
    Established α derivedFrom plain orElse where
  raw a := derivedFrom a = none → (position a).isSome
  done a := (position a).isSome
  alone raw derived := by rw [alone]; exact raw derived
  behind _ base := by rw [merged, Option.isSome_or, base, Bool.or_true]
  merge own _ := by rw [merged, Option.isSome_or, own, Bool.true_or]

/-- **The laws of positions**, one for each kind of node: of a field the bit range, of registers and
clusters the offset, and of a peripheral the base address. -/
def positionLaws : Laws where
  field := .ofPosition (·.bitRange) (fun _ => rfl) fun _ _ => rfl
  register := .ofPosition (·.addressOffset) (fun _ => rfl) fun _ _ => rfl
  cluster := .ofPosition (·.addressOffset) (fun _ => rfl) fun _ _ => rfl
  peripheral := .ofPosition (·.baseAddress) (fun _ => rfl) fun _ _ => rfl
  withFields := id
  withChildren := id

/-- **Resolution completes a description** that lacks positions only where they may be inherited.
The result is complete at every depth, copies included. -/
theorem resolve_complete {d r : Device} (anchored : d.Anchored) (h : resolve d = .ok r) :
    r.Complete := by
  have raw : ∀ p ∈ d.peripherals, positionLaws.RawPeripheral p := anchored
  exact Laws.resolve_done raw h

end ChipMap.Inheritance

namespace ChipMap.Map

open Description (Item Properties ClusterInfo)

/-! ### Computations that miss nothing -/

/-- **A computation that misses no position**, whatever its other faults are. -/
def Supplied {α : Type} (c : Except MapFault α) : Prop :=
  ∀ path element, c ≠ .error (.missing path element)

namespace Supplied

variable {α β : Type}

theorem ok (a : α) : Supplied (.ok a : Except MapFault α) := fun _ _ h => nomatch h

theorem bind {c : Except MapFault α} {f : α → Except MapFault β} (hc : Supplied c)
    (hf : ∀ a, Supplied (f a)) : Supplied (c >>= f) := by
  intro path element h
  rcases bind_eq_error.mp h with first | ⟨a, -, second⟩
  · exact hc path element first
  · exact hf a path element second

theorem mapM {f : α → Except MapFault β} {items : List α} (each : ∀ x ∈ items, Supplied (f x)) :
    Supplied (items.mapM f) := by
  intro path element h
  obtain ⟨x, hx, failed⟩ := exists_of_mapM_eq_error h
  exact each x hx path element failed

theorem given {path element : String} {position : Option α} (there : position.isSome) :
    Supplied (Map.given path element position) := by
  obtain ⟨a, rfl⟩ := Option.isSome_iff_exists.mp there
  exact .ok a

theorem identifier (path name : String) : Supplied (Map.identifier path name) := by
  unfold Map.identifier
  split
  · exact .ok _
  · exact fun _ _ h => nomatch h

/-! ### The steps of the builder

Each step is a sequence of computations, and it misses nothing when none of them does.  Where a
position is asked for, it is there by hypothesis. -/

theorem casePattern (path : String) (c : Description.EnumeratedCase) (width : Nat) :
    Supplied (Map.casePattern path c width) := by
  unfold Map.casePattern
  dsimp only
  split
  · exact .ok _
  · split
    · exact fun _ _ h => nomatch h
    · exact .ok _

theorem buildCase (path : String) (width : Nat) (c : Description.EnumeratedCase) :
    Supplied (Map.buildCase path width c) :=
  .bind (.casePattern path c width) fun _ => .bind (.identifier _ _) fun _ => .ok _

theorem buildFieldElement {register path : String} {size width : Nat} {defaults : FieldDefaults}
    {cases : List EnumCase} {f : Description.Field} (element : String × Nat) :
    Supplied (Map.buildFieldElement register path size width defaults cases f element) := by
  unfold Map.buildFieldElement
  dsimp only
  split
  · exact fun _ _ h => nomatch h
  · exact .bind (.identifier _ _) fun _ => .ok _

theorem buildField {register : String} {size : Nat} {defaults : FieldDefaults}
    {f : Description.Field} (there : f.bitRange.isSome) :
    Supplied (Map.buildField register size defaults f) := by
  refine .bind (.given there) fun _ => .bind ?_ fun _ => .mapM fun element _ =>
    .buildFieldElement element
  exact .bind (.mapM fun c _ => .buildCase _ _ c) fun _ => .ok _

theorem checkFields (register : String) (fields : List Field) :
    Supplied (Map.checkFields register fields) := by
  unfold Map.checkFields
  split
  · exact .ok _
  · exact fun _ _ h => nomatch h

theorem buildFields {register : String} {size : Nat} {defaults : FieldDefaults}
    {fields : List Description.Field} (there : ∀ f ∈ fields, f.bitRange.isSome) :
    Supplied (Map.buildFields register size defaults fields) :=
  .bind (.mapM fun f hf => .buildField (there f hf)) fun _ => .checkFields register _

theorem buildRegister {parent : String} {outer : Properties} {affix : Affix}
    {r : Description.Register} (offset : r.addressOffset.isSome)
    (fields : ∀ f ∈ r.fields, f.bitRange.isSome) :
    Supplied (Map.buildRegister parent outer affix r) := by
  unfold Map.buildRegister
  refine .bind (.given offset) fun _ => ?_
  dsimp only
  split
  · exact fun _ _ h => nomatch h
  · refine .bind (.buildFields fields) fun _ => .mapM fun _ _ => ?_
    exact .bind (.identifier _ _) fun _ => .ok _

theorem buildCluster (path : String) (info : ClusterInfo) (offset : Word) (contents : Contents) :
    Supplied (Map.buildCluster path info offset contents) :=
  .mapM fun _ _ => .bind (.identifier _ _) fun _ => .ok _

theorem buildItems {parent : String} {outer : Properties} {affix : Affix} {children : List Item}
    (each : ∀ c ∈ children, Supplied (buildItem parent outer affix c)) :
    Supplied (Map.buildItems parent outer affix children) := by
  induction children with
  | nil =>
      rw [Map.buildItems]
      exact .ok []
  | cons c rest ih =>
      rw [Map.buildItems]
      refine .bind (each c List.mem_cons_self) fun _ => ?_
      exact .bind (ih fun c hc => each c (List.mem_cons_of_mem _ hc)) fun _ => .ok _

/-- **A complete register or cluster**, by induction over it. -/
theorem buildItem (item : Item) : ∀ {parent : String} {outer : Properties} {affix : Affix},
    item.Complete → Supplied (Map.buildItem parent outer affix item) := by
  induction item using Item.induct with
  | register r =>
      intro parent outer affix complete
      obtain ⟨offset, fields⟩ := complete.of_register
      rw [Map.buildItem]
      exact .bind (.buildRegister offset fields) fun _ => .ok _
  | cluster info children ih =>
      intro parent outer affix complete
      obtain ⟨offset, inside⟩ := complete.of_cluster
      rw [Map.buildItem]
      refine .bind (.given offset) fun _ => ?_
      refine .bind (.buildItems fun c hc => ih c hc (inside c hc)) fun _ => ?_
      exact .bind (.buildCluster _ _ _ _) fun _ => .ok _

theorem buildInterrupts (p : Description.Peripheral) : Supplied (Map.buildInterrupts p) := by
  refine .bind (.mapM fun i _ => ?_) fun _ => .ok _
  unfold buildInterrupt
  split
  · exact fun _ _ h => nomatch h
  · exact .bind (.identifier _ _) fun _ => .ok _

theorem buildPeripheral {outer : Properties} {p : Description.Peripheral}
    (base : p.baseAddress.isSome) (inside : ∀ c ∈ p.children, c.Complete) :
    Supplied (Map.buildPeripheral outer p) := by
  refine .bind (.given base) fun _ => ?_
  refine .bind (.buildItems fun c hc => .buildItem c (inside c hc)) fun _ => ?_
  refine .bind (.buildInterrupts p) fun _ => .mapM fun _ _ => ?_
  exact .bind (.identifier _ _) fun _ => .ok _

/-- **The builder misses nothing of a complete description.** -/
theorem ofDescription {d : Description.Device} (complete : d.Complete) :
    Supplied (Map.ofDescription d) := by
  refine .bind (.identifier _ _) fun _ => .bind (.mapM fun p hp => ?_) fun _ => .ok _
  exact .buildPeripheral (complete p hp).1 (complete p hp).2

end Supplied

/-! ### Documents -/

/-- All positions of a resolved document are there. -/
theorem complete_of_resolvedOfText {text : String} {r : Description.Device}
    (h : resolvedOfText text = .ok r) : r.Complete := by
  obtain ⟨described, read, resolved⟩ := exists_of_resolvedOfText h
  exact Inheritance.resolve_complete (Description.ofText_anchored read) resolved

/-- **What a document resolves to is complete**, so its map fails for no missing position. -/
theorem resolvedOfText_complete {text : String} {r : Description.Device}
    (h : resolvedOfText text = .ok r) :
    r.Complete ∧ ∀ path element, ofText text ≠ .error (.layout (.missing path element)) := by
  have complete := complete_of_resolvedOfText h
  refine ⟨complete, fun path element failed => ?_⟩
  have built : ofText text = (ofDescription r).mapError .layout >>= fun device =>
      .ok (.ofDevice device) := by
    rw [ofText, h]
    rfl
  rw [built] at failed
  cases found : ofDescription r with
  | error fault =>
      rw [found] at failed
      obtain rfl := ChipFault.layout.inj (Except.error.inj failed)
      exact Supplied.ofDescription complete path element found
  | ok device =>
      rw [found] at failed
      cases failed

/-! ### A document with positions left out -/

/-- A document in which a peripheral, a register and a field leave out where they stand, each behind
a reference. -/
def inheriting : String :=
  "<device><name>D</name><peripherals><peripheral><name>P</name><baseAddress>8</baseAddress>
  <registers><register><name>R</name><addressOffset>0</addressOffset><fields><field>
  <name>F</name><bitRange>[3:0]</bitRange></field><field derivedFrom='F'><name>G</name></field>
  </fields></register></registers></peripheral><peripheral derivedFrom='P'><name>Q</name>
  <registers><register derivedFrom='R'><name>S</name></register></registers></peripheral>
  </peripherals></device>"

set_option maxRecDepth 4000 in
theorem resolvedOfText_inheriting : ∃ r, resolvedOfText inheriting = .ok r ∧
    r.peripherals.map (·.baseAddress) = [some 8, some 8] := by
  have written : inheriting = String.ofList _ := rfl
  have read := Description.ofText_eq written
  refine map_eq_ok.mp ?_
  rw [resolvedOfText, read]
  cbv

theorem resolvedOfText_complete_inheriting : ∃ r, resolvedOfText inheriting = .ok r ∧
    r.Complete ∧
      ∀ path element, ofText inheriting ≠ .error (.layout (.missing path element)) := by
  obtain ⟨r, h, -⟩ := resolvedOfText_inheriting
  exact ⟨r, h, resolvedOfText_complete h⟩

end ChipMap.Map
