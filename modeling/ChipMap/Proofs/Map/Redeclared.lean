import ChipMap.Proofs.Map.Memory

/-!
# Arrays that are declared the other way

The mark in the name of a register or cluster says whether its array becomes one node for each
element (`%s`) or a single node (`[%s]`).  When one mark is replaced by the other, anywhere in a
description, names change and so does the order of the nodes, but **the register elements have the
same bytes, and peripherals occupy the same addresses** (`resolvedOfText_redeclared`).

The addresses of a peripheral without address blocks stay the same only **as long as the array has
an element**: an array without elements is no node when it is expanded, and otherwise it takes the
room of one element (`resolvedOfText_redeclared_empty`, `redeclared_not_sameRange`).

### What is load-bearing

What a description occupies does not depend on names but for that (`levelSpans`, `levelRooms`), so
two descriptions that differ in a mark only occupy the same, and their maps do.  The peripherals
themselves are paired one by one: their names and first addresses are those of before, so they claim
the same names and are sorted alike.

A change of a mark is described as a change of one declaration, at any depth, and the rest of the
description stays (`Redeclared`).  Which declarations keep the elements and which keep the rooms are
separate questions (`SameElements`, `SameRooms`), since the exception concerns the latter only.
-/

namespace ChipMap.Text

/-- A text stands in another one when it is a part of it. -/
theorem occurs_iff_infix {part text : List Char} : occurs part text = true ↔ part <:+: text := by
  induction text with
  | nil => simp [occurs]
  | cons c rest ih =>
      rw [occurs, Bool.or_eq_true, ih, List.isPrefixOf_iff_prefix, List.infix_cons_iff]

theorem contains_append (before part behind : String) :
    contains (before ++ part ++ behind) part = true := by
  rw [contains, occurs_iff_infix, String.toList_append, String.toList_append]
  exact List.infix_append _ _ _

end ChipMap.Text

namespace ChipMap.Map

open Description (Dimension Properties Item ClusterInfo)

/-! ### Declarations -/

/-- **How a register or cluster declares its elements**: by the mark in its name and by its
array. -/
structure Declaration where
  /-- The name, with the mark of an array. -/
  name : String
  /-- The array, if it is one. -/
  dimension : Option Dimension

/-- Two declarations of the same elements, wherever the node stands. -/
def Declaration.SameElements (old new : Declaration) : Prop :=
  ∀ offset, elementPositions offset old.dimension = elementPositions offset new.dimension

/-- Two declarations that take the same room. -/
def Declaration.SameRooms (old new : Declaration) : Prop :=
  ∀ offset, roomPositions old.name offset old.dimension =
    roomPositions new.name offset new.dimension

/-- **A register or cluster is declared in another way**, be it the child itself or one inside it,
and all else is as it was. -/
inductive Redeclared (old new : Declaration) : Item → Item → Prop
  | register {r : Description.Register} : r.name = old.name → r.dimension = old.dimension →
    Redeclared old new (.register r)
      (.register { r with name := new.name, dimension := new.dimension })
  | cluster {info : ClusterInfo} {children : List Item} : info.name = old.name →
    info.dimension = old.dimension →
      Redeclared old new (.cluster info children)
        (.cluster { info with name := new.name, dimension := new.dimension } children)
  | inside {info : ClusterInfo} {c c' : Item} (before behind : List Item) :
    Redeclared old new c c' →
      Redeclared old new (.cluster info (before ++ c :: behind))
        (.cluster info (before ++ c' :: behind))

/-- A peripheral in which a register or cluster is declared in another way. -/
def PeripheralRedeclared (old new : Declaration) (p p' : Description.Peripheral) : Prop :=
  ∃ before c c' behind, p.children = before ++ c :: behind ∧ Redeclared old new c c' ∧
    p' = { p with children := before ++ c' :: behind }

/-- **A device in which a register or cluster is declared in another way.** -/
def DeviceRedeclared (old new : Declaration) (d d' : Description.Device) : Prop :=
  ∃ before p p' behind, d.peripherals = before ++ p :: behind ∧ PeripheralRedeclared old new p p' ∧
    d' = { d with peripherals := before ++ p' :: behind }

theorem forall_mem_replace {α : Type} {P : α → Prop} {before behind : List α} {a a' : α}
    (each : ∀ x ∈ before ++ a :: behind, P x) (step : P a → P a') :
    ∀ x ∈ before ++ a' :: behind, P x := by
  rw [List.forall_mem_append, List.forall_mem_cons] at each ⊢
  exact ⟨each.1, step each.2.1, each.2.2⟩

section Redeclared

variable {old new : Declaration} {c c' : Item}

theorem Redeclared.counted (h : Redeclared old new c c') (own : ∀ a ∈ new.dimension, a.Counted) :
    c.Counted → c'.Counted := by
  induction h with
  | register _ _ => exact fun _ => .register own
  | cluster _ _ => exact fun counted => .cluster own counted.of_cluster.2
  | inside before behind _ ih =>
      intro counted
      obtain ⟨here, inside⟩ := counted.of_cluster
      exact .cluster here (forall_mem_replace inside ih)

theorem Redeclared.old_counted (h : Redeclared old new c c') :
    c.Counted → ∀ a ∈ old.dimension, a.Counted := by
  induction h with
  | register _ dimension => exact fun counted => dimension ▸ counted.of_register
  | cluster _ dimension => exact fun counted => dimension ▸ counted.of_cluster.1
  | inside before behind _ ih =>
      exact fun counted =>
        ih (counted.of_cluster.2 _ (List.mem_append_right before List.mem_cons_self))

/-- **The register elements have the same bytes** when the elements are the same. -/
theorem Redeclared.itemSpans_eq (h : Redeclared old new c c') (same : old.SameElements new) :
    ∀ base outer, itemSpans base outer c = itemSpans base outer c' := by
  induction h with
  | register _ dimension =>
      intro base outer
      rw [itemSpans, itemSpans, itemPositions, itemPositions, dimension]
      simp only [same _]
      rfl
  | cluster _ dimension =>
      intro base outer
      rw [itemSpans, itemSpans, itemPositions, itemPositions, dimension]
      simp only [same _]
  | inside before behind _ ih =>
      intro base outer
      simp only [itemSpans, levelSpans_eq_flatMap, List.flatMap_append, List.flatMap_cons, ih]

/-- **The rooms are the same** when those of the declarations are. -/
theorem Redeclared.itemRooms_eq (h : Redeclared old new c c') (same : old.SameRooms new) :
    ∀ outer, itemRooms outer c = itemRooms outer c' := by
  induction h with
  | register name dimension =>
      intro outer
      rw [itemRooms, itemRooms, itemRoomPositions, itemRoomPositions, name, dimension]
      simp only [same _]
      rfl
  | cluster name dimension =>
      intro outer
      rw [itemRooms, itemRooms, itemRoomPositions, itemRoomPositions, name, dimension]
      simp only [same _]
  | inside before behind _ ih =>
      intro outer
      simp only [itemRooms, levelRooms_eq_flatMap, List.flatMap_append, List.flatMap_cons, ih]

end Redeclared

/-! ### The maps -/

/-- **Two peripherals at one place that occupy the same**: the same register elements if `elements`,
and the same addresses if `rooms`. -/
structure Peripheral.Matches (elements rooms : Prop) (q q' : Peripheral) : Prop where
  name : q'.name = q.name
  baseAddress : q'.baseAddress = q.baseAddress
  /-- The bytes of the register elements, whatever these are called. -/
  spans : elements → (q.elementSpans.map (·.span)).Perm (q'.elementSpans.map (·.span))
  /-- The addresses, whether address blocks say them or not. -/
  range : rooms → q'.addressRange = q.addressRange

theorem Peripheral.Matches.mono {elements rooms elements' rooms' : Prop} {q q' : Peripheral}
    (h : q.Matches elements rooms q') (spans : elements' → elements) (range : rooms' → rooms) :
    q.Matches elements' rooms' q' :=
  ⟨h.name, h.baseAddress, fun e => h.spans (spans e), fun r => h.range (range r)⟩

/-- Lists that two related lists lead to, entry by entry. -/
theorem forall₂_square {α β γ δ : Type} {R : α → β → Prop} {S : α → γ → Prop} {T : β → δ → Prop}
    {U : γ → δ → Prop} {xs : List α} {ys : List β} {zs : List γ} {ws : List δ}
    (h : List.Forall₂ R xs ys) (hs : List.Forall₂ S xs zs) (ht : List.Forall₂ T ys ws)
    (corner : ∀ x y z w, R x y → S x z → T y w → U z w) : List.Forall₂ U zs ws := by
  induction h generalizing zs ws with
  | nil =>
      cases hs
      cases ht
      exact .nil
  | cons head _ ih =>
      cases hs with
      | cons headS tailS =>
          cases ht with
          | cons headT tailT => exact .cons (corner _ _ _ _ head headS headT) (ih tailS tailT)

section Maps

variable {old new : Declaration} (own : ∀ a ∈ new.dimension, a.Counted)

include own

/-- **The peripherals that a peripheral is built to occupy the same**, when a register or cluster in
it is declared in another way. -/
theorem buildPeripheral_redeclared {outer : Properties} {p p' : Description.Peripheral}
    (counted : ∀ c ∈ p.children, c.Counted) (h : PeripheralRedeclared old new p p')
    {built built' : List Peripheral} (done : buildPeripheral outer p = .ok built)
    (done' : buildPeripheral outer p' = .ok built') :
    List.Forall₂ (Peripheral.Matches (old.SameElements new) (old.SameRooms new)) built built' := by
  obtain ⟨before, c, c', behind, children, redeclared, rfl⟩ := h
  have counted' : ∀ x ∈ before ++ c' :: behind, x.Counted :=
    forall_mem_replace (children ▸ counted) (redeclared.counted own)
  obtain ⟨entries, interrupts, hentries, -, placed⟩ := buildPeripheral_ok done
  obtain ⟨entries', interrupts', hentries', -, placed'⟩ := buildPeripheral_ok done'
  obtain ⟨spans, extent_⟩ := buildItems_occupies counted hentries
  obtain ⟨spans', extent'⟩ := buildItems_occupies counted' hentries'
  refine forall₂_square (List.forall₂_same.mpr fun _ _ => rfl) placed placed' ?_
  rintro i _ _ _ rfl ⟨-, id, named, rfl⟩ ⟨-, id', named', rfl⟩
  obtain rfl := Option.some.inj (named.symm.trans named')
  refine ⟨rfl, rfl, fun same => ?_, fun same => ?_⟩
  · have level : levelSpans 0 (p.properties.orElse outer) p.children =
        levelSpans 0 (p.properties.orElse outer) (before ++ c' :: behind) := by
      simp only [children, levelSpans_eq_flatMap, List.flatMap_append, List.flatMap_cons,
        redeclared.itemSpans_eq same]
    exact (spans 0).trans ((List.Perm.of_eq level).trans (spans' 0).symm)
  · have level : levelRooms (p.properties.orElse outer) p.children =
        levelRooms (p.properties.orElse outer) (before ++ c' :: behind) := by
      simp only [children, levelRooms_eq_flatMap, List.flatMap_append, List.flatMap_cons,
        redeclared.itemRooms_eq same]
    have same : extent (arrange entries').registers (arrange entries').clusters =
        extent (arrange entries).registers (arrange entries).clusters := by
      rw [extent', extent_, level]
    rw [placedPeripheral, placedPeripheral, occupied, occupied, same]

/-- **The peripherals of two maps occupy the same**, when a register or cluster is declared in
another way. -/
theorem ofDescription_redeclared {d d' : Description.Device} {device device' : Device}
    (counted : d.Counted) (h : DeviceRedeclared old new d d') (built : ofDescription d = .ok device)
    (built' : ofDescription d' = .ok device') :
    List.Forall₂ (Peripheral.Matches (old.SameElements new) (old.SameRooms new))
      device.peripherals device'.peripherals := by
  obtain ⟨before, p, p', behind, peripherals, redeclared, rfl⟩ := h
  obtain ⟨lists, -, hlists, arranged⟩ := ofDescription_ok built
  obtain ⟨lists', -, hlists', arranged'⟩ := ofDescription_ok built'
  have pairs : List.Forall₂ (fun x x' => (∀ c ∈ x.children, c.Counted) ∧
      (x = x' ∨ PeripheralRedeclared old new x x')) d.peripherals (before ++ p' :: behind) := by
    have counted (x : Description.Peripheral) (hx : x ∈ before ++ p :: behind) :
        ∀ c ∈ x.children, c.Counted := counted x (peripherals ▸ hx)
    rw [peripherals]
    refine List.rel_append ?_ (.cons ⟨counted p (by simp), .inr redeclared⟩ ?_)
    · exact List.forall₂_same.mpr fun x hx => ⟨counted x (List.mem_append_left _ hx), .inl rfl⟩
    · exact List.forall₂_same.mpr fun x hx =>
        ⟨counted x (List.mem_append_right _ (List.mem_cons_of_mem _ hx)), .inl rfl⟩
  have each := forall₂_square pairs hlists hlists' fun x x' list list' ⟨counted, same⟩ done done' => by
    rcases same with rfl | redeclared
    · obtain rfl := Except.ok.inj (done.symm.trans done')
      exact List.forall₂_same.mpr fun q _ =>
        (⟨rfl, rfl, fun _ => .refl _, fun _ => rfl⟩ :
          q.Matches (old.SameElements new) (old.SameRooms new) q)
    · exact buildPeripheral_redeclared own counted redeclared done done'
  -- What peripherals are sorted and named by is what two at one place have in common.
  rw [arranged, arranged', arrangePeripherals, arrangePeripherals]
  refine Name.sortOn_related (fun q q' same => same.name.symm)
    (Name.renameInOrder_related ?_ (fun q q' same => same.name.symm) ?_ (List.rel_flatten each))
  · intro q q' same
    rw [same.name, same.baseAddress]
  · exact fun q q' n same => ⟨rfl, same.baseAddress, same.spans, same.range⟩

end Maps

/-- The array that was declared in a device is one of its arrays. -/
theorem DeviceRedeclared.old_counted {old new : Declaration} {d d' : Description.Device}
    (h : DeviceRedeclared old new d d') (counted : d.Counted) :
    ∀ a ∈ old.dimension, a.Counted := by
  obtain ⟨before, p, p', behind, peripherals, ⟨first, c, c', last, children, redeclared, -⟩, -⟩ := h
  refine redeclared.old_counted (counted p ?_ c ?_)
  · rw [peripherals]
    exact List.mem_append_right before List.mem_cons_self
  · rw [children]
    exact List.mem_append_right first List.mem_cons_self

/-! ### Marks -/

/-- The declaration of an array with a mark in its name. -/
def marked (before mark behind : String) (a : Dimension) : Declaration :=
  ⟨before ++ mark ++ behind, some a⟩

theorem isExpanded_arrayMark (before behind : String) :
    isExpanded (before ++ arrayMark ++ behind) = false := by
  rw [isExpanded, Text.contains_append, Bool.not_true, Bool.and_false]

/-- An array that is not expanded is one node, whose name has lost its marks. -/
theorem placements_arrayMark (before behind : String) (offset : Word) (a : Dimension) :
    placements (before ++ arrayMark ++ behind) offset (some a) =
      [⟨Text.replaceAll (Text.replaceAll (before ++ arrayMark ++ behind) arrayMark "") indexMark "",
        offset, some ⟨a.count, a.increment⟩⟩] := by
  rw [placements, isExpanded_arrayMark]
  rfl

/-- **An array with an element takes the same room with either mark.**  Its first element begins
where the array does. -/
theorem sameRooms_of_count (before behind : String) {a : Dimension} (some_ : a.count ≠ 0) :
    (marked before indexMark behind a).SameRooms (marked before arrayMark behind a) := by
  intro offset
  rw [marked, marked, roomPositions, roomPositions, if_neg fun h => some_ h.1,
    if_neg fun h => some_ h.1]

/-- An array of one element in place of one without. -/
def single (a : Dimension) : Dimension := ⟨1, a.increment, none, a.name⟩

/-- **An array without elements takes the room of one**, unless it is expanded. -/
theorem sameRooms_of_empty (before behind : String) {a : Dimension} (none_ : a.count = 0) :
    (marked before arrayMark behind a).SameRooms (marked before arrayMark behind (single a)) := by
  intro offset
  have one : elementPositions offset (some (single a)) = [offset.toNat] := by
    have count : List.range (single a).count.toNat = [0] := rfl
    rw [elementPositions, count, List.map_singleton, elementOffset_zero]
  have other : ¬((single a).count = 0 ∧ isExpanded (before ++ arrayMark ++ behind) = false) :=
    fun h => absurd h.1 (by simp [single])
  rw [marked, marked, roomPositions, roomPositions, if_pos ⟨none_, isExpanded_arrayMark _ _⟩,
    if_neg other, one]

section Document

variable {text : String} {d d' : Description.Device} {device device' : Device}
variable {before behind : String} {a : Dimension}

/-- **Two maps in which an array has the one mark and the other one occupy the same memory**: the
bytes of the register elements of each peripheral are the same in some order, and if the array has
an element the addresses of each peripheral are. -/
theorem resolvedOfText_redeclared (h : resolvedOfText text = .ok d)
    (redeclared : DeviceRedeclared (marked before indexMark behind a)
      (marked before arrayMark behind a) d d')
    (built : ofDescription d = .ok device) (built' : ofDescription d' = .ok device') :
    List.Forall₂ (Peripheral.Matches True (a.count ≠ 0)) device.peripherals
      device'.peripherals := by
  have counted := resolvedOfText_counted h
  have own : ∀ x ∈ (marked before arrayMark behind a).dimension, x.Counted :=
    redeclared.old_counted counted
  have same := ofDescription_redeclared own counted redeclared built built'
  exact same.imp fun q q' same =>
    same.mono (fun _ _ => rfl) (sameRooms_of_count before behind)

/-- **A peripheral occupies the addresses of one element** of an array that has none and is not
expanded. -/
theorem resolvedOfText_redeclared_empty (h : resolvedOfText text = .ok d) (none_ : a.count = 0)
    (redeclared : DeviceRedeclared (marked before arrayMark behind a)
      (marked before arrayMark behind (single a)) d d')
    (built : ofDescription d = .ok device) (built' : ofDescription d' = .ok device') :
    List.Forall₂ (Peripheral.Matches False True) device.peripherals device'.peripherals := by
  have own : ∀ x ∈ (marked before arrayMark behind (single a)).dimension, x.Counted := by
    rintro _ ⟨⟩
    rfl
  have same := ofDescription_redeclared own (resolvedOfText_counted h) redeclared built built'
  exact same.imp fun q q' same =>
    same.mono False.elim fun _ => sameRooms_of_empty before behind none_

end Document

/-- A document with two arrays of registers that are expanded: the first one has two elements, the
second one has none. -/
def arrays : String :=
  "<device><name>D</name><peripherals><peripheral><name>P</name><baseAddress>0</baseAddress>
  <registers><register><dim>2</dim><dimIncrement>4</dimIncrement><name>R%s</name>
  <addressOffset>0</addressOffset></register><register><dim>0</dim><dimIncrement>4</dimIncrement>
  <name>S%s</name><addressOffset>16</addressOffset></register></registers></peripheral></peripherals>
  </device>"

/-- An array of registers. -/
def registerArray (name : String) (offset : Word) (a : Dimension) : Description.Register :=
  { Inheritance.plainRegister name offset none [] with dimension := some a }

def twoElements : Dimension := ⟨2, 4, none, none⟩

def noElements : Dimension := ⟨0, 4, none, none⟩

/-- The device of the document when its arrays have these names. -/
def arraysDevice (first second : String) : Description.Device :=
  Inheritance.oneBlock [registerArray first 0 twoElements, registerArray second 16 noElements]

set_option maxRecDepth 4000 in
theorem resolvedOfText_arrays : resolvedOfText arrays = .ok (arraysDevice "R%s" "S%s") := by
  have written : arrays = String.ofList _ := rfl
  have read := Description.ofText_eq written
  rw [resolvedOfText, read]
  cbv

/-- The array with elements is declared with the other mark. -/
theorem arraysDevice_first : DeviceRedeclared (marked "R" indexMark "" twoElements)
    (marked "R" arrayMark "" twoElements) (arraysDevice "R%s" "S%s") (arraysDevice "R[%s]" "S%s") :=
  ⟨[], _, _, [], rfl, ⟨[], _, _, _, rfl, .register rfl rfl, rfl⟩, rfl⟩

/-- The array without elements is declared with the other mark. -/
theorem arraysDevice_second : DeviceRedeclared (marked "S" indexMark "" noElements)
    (marked "S" arrayMark "" noElements) (arraysDevice "R%s" "S%s") (arraysDevice "R%s" "S[%s]") :=
  ⟨[], _, _, [], rfl, ⟨[.register (registerArray "R%s" 0 twoElements)], _, _, [], rfl,
    .register rfl rfl, rfl⟩, rfl⟩

/-- What the peripherals of a map occupy: their address ranges, and the bytes of their register
elements. -/
def memory (device : Device) : List (Span × List Span) :=
  device.peripherals.map fun q => (q.addressRange, q.elementSpans.map (·.span))

theorem exists_memory {d : Description.Device} {occupied : List (Span × List Span)}
    (h : (ofDescription d).map memory = .ok occupied) :
    ∃ device, ofDescription d = .ok device ∧ memory device = occupied := by
  cases built : ofDescription d with
  | error fault =>
      rw [built] at h
      cases h
  | ok device =>
      rw [built] at h
      exact ⟨device, rfl, Except.ok.inj h⟩

theorem memory_arrays : (ofDescription (arraysDevice "R%s" "S%s")).map memory =
    .ok [(⟨0, 8⟩, [⟨0, 4⟩, ⟨4, 8⟩])] := by
  cbv

-- The search for a mark of an array is not evaluated: the builders are opened as far as it, and then
-- its answer is known.

theorem memory_arrays_first : (ofDescription (arraysDevice "R[%s]" "S%s")).map memory =
    .ok [(⟨0, 8⟩, [⟨0, 4⟩, ⟨4, 8⟩])] := by
  have placed := placements_arrayMark "R" "" 0 twoElements
  rw [show "R" ++ arrayMark ++ "" = "R[%s]" from rfl] at placed
  simp only [ofDescription, arraysDevice, Inheritance.oneBlock, buildPeripheral, buildItems, buildItem,
    buildRegister, registerArray, Inheritance.plainRegister, List.map_cons, List.map_nil,
    List.mapM_cons, bind, Except.bind, given, placed]
  cbv

theorem memory_arrays_second : (ofDescription (arraysDevice "R%s" "S[%s]")).map memory =
    .ok [(⟨0, 20⟩, [⟨0, 4⟩, ⟨4, 8⟩])] := by
  have placed := placements_arrayMark "S" "" 16 noElements
  rw [show "S" ++ arrayMark ++ "" = "S[%s]" from rfl] at placed
  simp only [ofDescription, arraysDevice, Inheritance.oneBlock, buildPeripheral, buildItems, buildItem,
    buildRegister, registerArray, Inheritance.plainRegister, List.map_cons, List.map_nil,
    List.mapM_cons, bind, Except.bind, given, placed]
  cbv

/-- **The array with two elements** occupies the same memory with either mark. -/
theorem resolvedOfText_redeclared_first :
    resolvedOfText arrays = .ok (arraysDevice "R%s" "S%s") ∧
      ∃ device device', ofDescription (arraysDevice "R%s" "S%s") = .ok device ∧
        ofDescription (arraysDevice "R[%s]" "S%s") = .ok device' ∧
        memory device = [(⟨0, 8⟩, [⟨0, 4⟩, ⟨4, 8⟩])] ∧
        List.Forall₂ (Peripheral.Matches True (twoElements.count ≠ 0)) device.peripherals
          device'.peripherals := by
  obtain ⟨device, built, occupied⟩ := exists_memory memory_arrays
  obtain ⟨device', built', -⟩ := exists_memory memory_arrays_first
  exact ⟨resolvedOfText_arrays, device, device', built, built', occupied,
    resolvedOfText_redeclared resolvedOfText_arrays arraysDevice_first built built'⟩

/-- **The array without elements does not**: with the one mark the peripheral, which has no address
blocks, ends behind the other array, and with the other mark behind one element of it. -/
theorem redeclared_not_sameRange :
    resolvedOfText arrays = .ok (arraysDevice "R%s" "S%s") ∧
      (∀ p ∈ (arraysDevice "R%s" "S%s").peripherals, p.addressBlocks = []) ∧
      DeviceRedeclared (marked "S" indexMark "" noElements) (marked "S" arrayMark "" noElements)
        (arraysDevice "R%s" "S%s") (arraysDevice "R%s" "S[%s]") ∧
      (ofDescription (arraysDevice "R%s" "S%s")).map memory =
        .ok [(⟨0, 8⟩, [⟨0, 4⟩, ⟨4, 8⟩])] ∧
      (ofDescription (arraysDevice "R%s" "S[%s]")).map memory =
        .ok [(⟨0, 20⟩, [⟨0, 4⟩, ⟨4, 8⟩])] := by
  refine ⟨resolvedOfText_arrays, ?_, arraysDevice_second, memory_arrays,
    memory_arrays_second⟩
  rintro p (_ | ⟨_, ⟨⟩⟩)
  rfl

end ChipMap.Map
