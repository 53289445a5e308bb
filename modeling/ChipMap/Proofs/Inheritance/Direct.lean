import ChipMap.Proofs.Inheritance.Agreement
import ChipMap.Proofs.Sequence

/-!
# Resolution without a memory

The resolver remembers every node that it has resolved and refuses a node that is under way.
`direct` does neither: it resolves a node anew each time it is needed, and follows references to a
given depth only.  It is the reading of the steps that laws about results are proved of, by
induction on the depth.

The module on what the resolver remembers ties the two together: **what the resolver returns is what
the direct resolution returns at some depth**, whatever it had resolved before and whether or not
other calls failed.

### What is load-bearing

A remembered node was resolved at levels of its own, and is handed out at the levels of the look-up
that needs it.  These are the same levels: the place of a node determines them (`Chain.unique`),
because what a level inherits was itself computed by the direct resolution, and that gives one
answer at all depths (`direct_mono`).
-/

namespace ChipMap.Inheritance

open Description

/-- **The resolution that remembers nothing**, with references followed to the depth `n`.  At depth
zero nothing has an answer, and the fault that is given there is never looked at. -/
def direct (d : Device) : Nat → Solvers (Except ReferenceFault)
  | 0 =>
    { peripheral := fun _ => .error (.cycle .peripheral [])
      child := fun _ _ => .error (.cycle .register []) }
  | n + 1 =>
    { peripheral := fun i =>
        match d.peripherals[i]? with
        | none => .error (.cycle .peripheral [])
        | some p => resolvePeripheralBody d (direct d n) i p
      child := fun levels i =>
        match levels with
        | [] => .error (.cycle .register [])
        | level :: outer =>
          match level.own[i]? with
          | none => .error (.cycle .register [])
          | some item =>
            resolveItem d (direct d n) level outer (level.place.child i)
              (childPath level.path item.name) item }

/-- A peripheral is answered by its step, from the answers at one depth less. -/
theorem direct_peripheral_ok {d : Device} {n i : Nat} {q : Peripheral} :
    (direct d (n + 1)).peripheral i = .ok q ↔
      ∃ p, d.peripherals[i]? = some p ∧ resolvePeripheralBody d (direct d n) i p = .ok q := by
  rw [direct]
  dsimp only
  cases d.peripherals[i]? with
  | none => simp
  | some p => simp

/-- A child is answered by its step, from the answers at one depth less. -/
theorem direct_child_ok {d : Device} {n i : Nat} {level : Level} {outer : List Level} {x : Item} :
    (direct d (n + 1)).child (level :: outer) i = .ok x ↔
      ∃ item, level.own[i]? = some item ∧
        resolveItem d (direct d n) level outer (level.place.child i)
          (childPath level.path item.name) item = .ok x := by
  rw [direct]
  dsimp only
  cases level.own[i]? with
  | none => simp
  | some item => simp

/-! ### More depth -/

/-- A computation that succeeds at once agrees with one that has its value.  Faults are not
compared, as a fault may come from too little depth. -/
def keepsValue : Agreement (Except ReferenceFault) Unit where
  rel _ c c' := ∀ a, c = .ok a → c' () = .ok a
  pure _ _ := fun _ h => h
  throw _ _ := fun _ h => h
  bind {_ _ _ c c' f f'} hc hf := by
    intro b hb
    obtain ⟨a, ha, hb⟩ := bind_eq_ok.mp hb
    exact bind_eq_ok.mpr ⟨a, hc a ha, hf a b hb⟩
  weaken _ h := h

/-- Two direct resolutions agree when the second one has every answer of the
first. -/
private theorem agree_keepsValue {d : Device} {n k : Nat}
    (peripheral : ∀ i q, (direct d n).peripheral i = .ok q → (direct d k).peripheral i = .ok q)
    (child : ∀ levels i x, (direct d n).child levels i = .ok x →
      (direct d k).child levels i = .ok x) :
    keepsValue.Agree d (fun _ => True) (direct d n) (fun _ => direct d k) where
  peripheral := peripheral
  child := child
  outer _ := trivial
  ofPeripheral _ _ := trivial

/-- One more level of depth loses no answer. -/
private theorem agree_direct_succ (d : Device) (n : Nat) :
    keepsValue.Agree d (fun _ => True) (direct d n) (fun _ => direct d (n + 1)) := by
  induction n with
  | zero =>
      refine agree_keepsValue ?_ ?_
      · intro i q h
        cases h
      · intro levels i x h
        cases h
  | succ n ih =>
      refine agree_keepsValue ?_ ?_
      · intro i q h
        obtain ⟨p, found, h⟩ := direct_peripheral_ok.mp h
        have deeper := Agreement.rel_resolvePeripheralBody (P := True) ih found
        exact direct_peripheral_ok.mpr ⟨p, found, deeper q h⟩
      · intro levels i x h
        cases levels with
        | nil => cases h
        | cons level outer =>
            obtain ⟨item, found, h⟩ := direct_child_ok.mp h
            exact direct_child_ok.mpr ⟨item, found, (Agreement.rel_resolveItem (P := True) ih
              (fun _ => trivial) _ _ item fun _ _ _ _ _ _ => trivial) x h⟩

/-- **The depth is enough or too small**: a deeper resolution has every answer
of a shallower one. -/
theorem agree_direct (d : Device) {n k : Nat} (h : n ≤ k) :
    keepsValue.Agree d (fun _ => True) (direct d n) (fun _ => direct d k) := by
  induction h with
  | refl => exact agree_keepsValue (fun _ _ h => h) fun _ _ _ h => h
  | @step k _ ih =>
      have next := agree_direct_succ d k
      exact agree_keepsValue (fun i q h => next.peripheral i q (ih.peripheral i q h))
        fun levels i x h => next.child levels i x (ih.child levels i x h)

theorem direct_peripheral_mono {d : Device} {n k i : Nat} {q : Peripheral} (h : n ≤ k)
    (found : (direct d n).peripheral i = .ok q) : (direct d k).peripheral i = .ok q :=
  (agree_direct d h).peripheral i q found

theorem direct_child_mono {d : Device} {n k i : Nat} {levels : List Level} {x : Item}
    (h : n ≤ k) (found : (direct d n).child levels i = .ok x) :
    (direct d k).child levels i = .ok x :=
  (agree_direct d h).child levels i x found

theorem basePeripheral_mono {d : Device} {n k : Nat} {p : Peripheral}
    {base : Option Peripheral} (h : n ≤ k)
    (found : basePeripheral d (direct d n) p = .ok base) :
    basePeripheral d (direct d k) p = .ok base :=
  (Agreement.rel_basePeripheral (P := True) (agree_direct d h) p) base found

theorem itemBase_mono {d : Device} {n k : Nat} {level : Level} {outer : List Level}
    {path : String} {item : Item} {base : Option Item} (h : n ≤ k)
    (found : itemBase d (direct d n) level outer path item = .ok base) :
    itemBase d (direct d k) level outer path item = .ok base :=
  (Agreement.rel_itemBase (P := True) (agree_direct d h) (fun _ => trivial) path item) base found

/-! ### The levels at a place -/

/-- **The levels that a resolution passes through**, from the inside out: the children of a
peripheral, or of a cluster among the children of such levels, each with what the base of its node
has. -/
inductive Chain (d : Device) : List Level → Prop
  /-- The children of a peripheral. -/
  | ofPeripheral {i n : Nat} {p : Peripheral} {base : Option Peripheral} :
    d.peripherals[i]? = some p → basePeripheral d (direct d n) p = .ok base →
      Chain d [Level.ofPeripheral i p base]
  /-- The children of a cluster. -/
  | ofCluster {k n : Nat} {level : Level} {outer : List Level} {own : ClusterInfo}
    {children : List Item} {base : Option Item} :
    Chain d (level :: outer) → level.own[k]? = some (.cluster own children) →
      itemBase d (direct d n) level outer (childPath level.path own.name)
        (.cluster own children) = .ok base →
      Chain d (⟨level.place.child k, childPath level.path own.name, children,
        inheritedChildren base⟩ :: level :: outer)

theorem Chain.tail {d : Device} {level next : Level} {outer : List Level}
    (h : Chain d (level :: next :: outer)) : Chain d (next :: outer) := by
  cases h with
  | ofCluster inner _ _ => exact inner

theorem Place.child_inj {p q : Place} {i j : Nat} :
    p.child i = q.child j ↔ p = q ∧ i = j := by
  constructor
  · intro h
    obtain ⟨hp, hs⟩ := Place.mk.inj h
    obtain ⟨hsteps, hlast⟩ := List.append_inj' hs rfl
    refine ⟨?_, List.cons.inj hlast |>.1⟩
    cases p
    cases q
    simp_all
  · rintro ⟨rfl, rfl⟩
    rfl

/-- Two answers of the direct resolution about the base of a peripheral are the same, whatever the
depths are. -/
theorem basePeripheral_unique {d : Device} {n k : Nat} {p : Peripheral}
    {base other : Option Peripheral} (h : basePeripheral d (direct d n) p = .ok base)
    (h' : basePeripheral d (direct d k) p = .ok other) : base = other := by
  have left := basePeripheral_mono (Nat.le_max_left n k) h
  have right := basePeripheral_mono (Nat.le_max_right n k) h'
  exact Except.ok.inj (left.symm.trans right)

theorem itemBase_unique {d : Device} {n k : Nat} {level : Level} {outer : List Level}
    {path : String} {item : Item} {base other : Option Item}
    (h : itemBase d (direct d n) level outer path item = .ok base)
    (h' : itemBase d (direct d k) level outer path item = .ok other) : base = other := by
  have left := itemBase_mono (Nat.le_max_left n k) h
  have right := itemBase_mono (Nat.le_max_right n k) h'
  exact Except.ok.inj (left.symm.trans right)

/-- **A place determines its levels.**  The numbers of the place lead to the same
described node, and what a level inherits has one value. -/
theorem Chain.unique {d : Device} {level level' : Level} {outer outer' : List Level}
    (h : Chain d (level :: outer)) (h' : Chain d (level' :: outer'))
    (same : level.place = level'.place) : level :: outer = level' :: outer' := by
  generalize hl : level :: outer = levels at h
  induction h generalizing level level' outer outer' with
  | ofPeripheral found base =>
      obtain ⟨rfl, rfl⟩ := List.cons.inj hl
      cases h' with
      | ofPeripheral found' base' =>
          obtain ⟨rfl, -⟩ := Place.mk.inj same
          obtain rfl := Option.some.inj (found.symm.trans found')
          rw [basePeripheral_unique base base']
      | ofCluster _ _ _ =>
          have := (Place.mk.inj same).2
          simp at this
  | ofCluster inner found base ih =>
      obtain ⟨rfl, rfl⟩ := List.cons.inj hl
      cases h' with
      | ofPeripheral _ _ =>
          have := (Place.mk.inj same).2
          simp at this
      | ofCluster inner' found' base' =>
          obtain ⟨place, rfl⟩ := Place.child_inj.mp same
          obtain ⟨rfl, rfl⟩ := List.cons.inj (ih inner' place rfl)
          obtain ⟨rfl, rfl⟩ := Item.cluster.inj (Option.some.inj (found.symm.trans found'))
          rw [itemBase_unique base base']

end ChipMap.Inheritance
