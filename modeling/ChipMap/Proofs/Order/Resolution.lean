import ChipMap.Proofs.Inheritance.Complete
import ChipMap.Proofs.Inheritance.Scope
import ChipMap.Proofs.Order.Fields

/-!
# Resolution in another order

The direct resolution asks for nodes by number and finds them by name.  Asked for partners in two
orders of a description, **it gives matching nodes or fails for both** (`direct_alike`), at every
depth.  The resolver finds what the direct resolution answers, so it succeeds for both or for
neither too (`resolve_alike`).

Each step has one law here, from what its answers do: `AlikeSolvers` are solvers whose answers to
partners match.

### What is load-bearing

What is found first by a name must not depend on the order.  Siblings that are described have
distinct names, and so have the resolved ones, since a name that a node takes over is one that it
does not define (`resolveLevel_alike`).

The places of nodes are numbers and differ between the two orders, while the paths that are told to
a reader are names and do not.  So the laws fix the paths and leave the places free.
-/

namespace ChipMap.Inheritance

open Description

/-- Two orders of the siblings at one place, under the same path. -/
structure Level.Matches (l l' : Level) : Prop where
  path : l.path = l'.path
  own : Siblings Item.Matches Item.name l.own l'.own
  inherited : Siblings Item.Matches Item.name l.inherited l'.inherited

/-- **Solvers whose answers to partners match**, and that answer by the steps. -/
structure AlikeSolvers (d d' : Device) (solve solve' : Solvers (Except ReferenceFault)) :
    Prop where
  closed : Closed d solve
  otherClosed : Closed d' solve'
  devices : Siblings Peripheral.Matches Peripheral.name d.peripherals d'.peripherals
  peripheral : ∀ {i j}, Partners Peripheral.Matches d.peripherals d'.peripherals i j →
    Alike Peripheral.Matches (solve.peripheral i) (solve'.peripheral j)
  child : ∀ {level outer level' outer' i j},
    List.Forall₂ Level.Matches (level :: outer) (level' :: outer') →
      Partners Item.Matches level.own level'.own i j →
        Alike Item.Matches (solve.child (level :: outer) i) (solve'.child (level' :: outer') j)

/-- A path of names leads to matching nodes from matching nodes. -/
theorem descend_matches {names : List String} : ∀ {x y : Item}, x.Matches y →
    Option.Rel Item.Matches (descend x names) (descend y names) := by
  induction names with
  | nil => exact fun h => .some h
  | cons name rest ih =>
      intro x y h
      rw [descend, descend, itemNamed?, itemNamed?]
      rcases optionRel_iff.mp (h.children.find? name) with
        ⟨left, right⟩ | ⟨a, b, left, right, m⟩
      · rw [left, right]
        exact .none
      · rw [left, right]
        exact ih m

theorem rootPath_congr {levels levels' : List Level}
    (h : List.Forall₂ Level.Matches levels levels') : rootPath levels = rootPath levels' := by
  have paths : levels.map (·.path) = levels'.map (·.path) := by
    induction h with
    | nil => rfl
    | cons head _ ih => rw [List.map_cons, List.map_cons, head.path, ih]
  rw [rootPath, rootPath, ← List.getLast?_map, ← List.getLast?_map, paths]

theorem baseOf_alike {item item' : Item} (h : item.Matches item') {path : String}
    {referent referent' counterpart counterpart' : Option Item}
    (hr : Option.Rel Item.Matches referent referent')
    (hc : Option.Rel Item.Matches counterpart counterpart') :
    Alike (Option.Rel Item.Matches) (baseOf item path referent counterpart)
      (baseOf item' path referent' counterpart') := by
  cases hr with
  | some r =>
      cases hc with
      | some c => exact (mergeItem_alike _ r c).map fun _ _ m => .some m
      | none => exact .ok (.some r)
  | none =>
      cases hc with
      | some c =>
          rw [baseOf, baseOf, h.kind_eq, c.kind_eq]
          split
          · exact .ok (.some c)
          · exact .error
      | none => exact .ok .none

/-- A register with the absent attributes taken from its base. -/
theorem resolveRegister_alike {own own' : Register} (h : own.Matches own')
    {base base' : Option Register} (hb : Option.Rel Register.Matches base base') {path : String} :
    Alike Register.Matches (resolveRegister own base path) (resolveRegister own' base' path) := by
  obtain ⟨fields, siblings, rfl⟩ := h
  cases hb with
  | none =>
      have scope : FieldScope.Matches ⟨path, own.fields, []⟩ ⟨path, fields, []⟩ :=
        ⟨siblings, ⟨[], .nil, .nil⟩, siblings.named, .nil⟩
      exact (resolveFields_alike scope).bind fun kept kept' s => .ok ⟨kept', s, rfl⟩
  | @some b _ hb =>
      obtain ⟨inherited, siblings', rfl⟩ := hb
      have scope : FieldScope.Matches ⟨path, own.fields, b.fields⟩ ⟨path, fields, inherited⟩ :=
        ⟨siblings, siblings'⟩
      exact (resolveFields_alike scope).bind fun kept kept' s =>
        .ok ⟨_, siblings_appendNewNames s siblings', rfl⟩

theorem asRegister?_matches {base base' : Option Item} (h : Option.Rel Item.Matches base base') :
    Option.Rel Register.Matches (base.bind asRegister?) (base'.bind asRegister?) := by
  cases h with
  | none => exact .none
  | @some x y m =>
      cases x with
      | register r =>
          obtain ⟨r', same, rfl⟩ := Item.matches_register.mp m
          exact .some same
      | cluster _ _ =>
          obtain ⟨_, _, rfl⟩ := Item.matches_cluster.mp m
          exact .none

theorem asClusterInfo?_congr {base base' : Option Item}
    (h : Option.Rel Item.Matches base base') :
    base.bind asClusterInfo? = base'.bind asClusterInfo? := by
  cases h with
  | none => rfl
  | @some x y m =>
      cases x with
      | register _ =>
          obtain ⟨_, _, rfl⟩ := Item.matches_register.mp m
          rfl
      | cluster _ _ =>
          obtain ⟨_, _, rfl⟩ := Item.matches_cluster.mp m
          rfl

theorem inheritedChildren_matches {base base' : Option Item}
    (h : Option.Rel Item.Matches base base') :
    Siblings Item.Matches Item.name (inheritedChildren base) (inheritedChildren base') := by
  cases h with
  | none => exact ⟨⟨[], .nil, .nil⟩, fun _ _ m => m.name_eq, .nil⟩
  | some m => exact m.children

theorem ofPeripheral_matches {i j : Nat} {p p' : Peripheral} (h : p.Matches p')
    {base base' : Option Peripheral} (hb : Option.Rel Peripheral.Matches base base') :
    (Level.ofPeripheral i p base).Matches (Level.ofPeripheral j p' base') := by
  obtain ⟨children, siblings, rfl⟩ := h
  refine ⟨rfl, siblings, ?_⟩
  cases hb with
  | none => exact ⟨⟨[], .nil, .nil⟩, fun _ _ m => m.name_eq, .nil⟩
  | some m =>
      obtain ⟨_, siblings', rfl⟩ := m
      exact siblings'

namespace AlikeSolvers

variable {d d' : Device} {solve solve' : Solvers (Except ReferenceFault)}
variable (h : AlikeSolvers d d' solve solve')

include h

theorem basePeripheral_alike {p p' : Peripheral} (m : p.Matches p') :
    Alike (Option.Rel Peripheral.Matches) (basePeripheral d solve p)
      (basePeripheral d' solve' p') := by
  obtain ⟨children, -, rfl⟩ := m
  unfold basePeripheral
  dsimp only
  cases p.derivedFrom with
  | none => exact .ok .none
  | some target =>
      dsimp only
      rcases optionRel_iff.mp (h.devices.findIdx? target) with
        ⟨left, right⟩ | ⟨i, j, left, right, partners⟩
      · rw [peripheralIndex?, peripheralIndex?, left, right]
        exact .error
      · rw [peripheralIndex?, peripheralIndex?, left, right]
        exact (h.peripheral partners).map fun _ _ m => .some m

section Levels

variable {level level' : Level} {outer outer' : List Level}
variable (hl : List.Forall₂ Level.Matches (level :: outer) (level' :: outer'))

include hl

/-- **All children of a level** match those of its other order, and their names are distinct. -/
theorem resolveLevel_alike :
    Alike (Siblings Item.Matches Item.name) (resolveLevel solve level outer)
      (resolveLevel solve' level' outer') := by
  obtain ⟨-, own, inherited⟩ := (List.forall₂_cons.mp hl).1
  have each := Alike.mapM own.range fun i j partners => h.child hl partners
  refine each.returned.bind fun kept kept' ⟨hkept, hkept', shuffled⟩ => ?_
  -- A child keeps its name, so the resolved children still have distinct names.
  have names := names_of_resolved h.closed (mapM_eq_ok.mp hkept)
  have names' := names_of_resolved h.otherClosed (mapM_eq_ok.mp hkept')
  have resolved : Siblings Item.Matches Item.name kept kept' :=
    ⟨shuffled, fun _ _ m => m.name_eq, names ▸ own.distinct⟩
  exact .ok (siblings_appendUndefined resolved inherited names names')

theorem findInLevel_alike (name : String) :
    Alike (Option.Rel Item.Matches) (findInLevel solve level outer name)
      (findInLevel solve' level' outer' name) := by
  obtain ⟨-, own, inherited⟩ := (List.forall₂_cons.mp hl).1
  unfold findInLevel
  rcases optionRel_iff.mp (own.findIdx? name) with ⟨left, right⟩ | ⟨i, j, left, right, partners⟩
  · rw [left, right]
    exact .ok (inherited.find? name)
  · rw [left, right]
    exact (h.child hl partners).map fun _ _ m => .some m

theorem followFrom_alike (names : List String) :
    Alike (Option.Rel Item.Matches) (followFrom solve level outer names)
      (followFrom solve' level' outer' names) := by
  cases names with
  | nil => exact .ok .none
  | cons first rest =>
      refine (h.findInLevel_alike hl first).bind fun found found' m => ?_
      cases m with
      | none => exact .ok .none
      | some m => exact .ok (descend_matches m)

end Levels

/-- A look-up from matching levels, by induction over the levels. -/
theorem lookupLevels_alike (names : List String) {levels levels' : List Level}
    (hl : List.Forall₂ Level.Matches levels levels') :
    Alike (Option.Rel Item.Matches) (lookupLevels solve names levels)
      (lookupLevels solve' names levels') := by
  induction hl with
  | nil => exact .ok .none
  | @cons level level' outer outer' head tail ih =>
      refine (h.followFrom_alike (.cons head tail) names).bind fun found found' m => ?_
      cases m with
      | some m => exact .ok (.some m)
      | none =>
          cases tail with
          | cons _ _ => exact ih
          | nil =>
              cases names with
              | nil => exact ih
              | cons first rest =>
                  dsimp only
                  rw [head.path]
                  split
                  · exact h.followFrom_alike (.cons head .nil) rest
                  · exact .ok .none

theorem lookupElsewhere_alike (names : List String) {levels levels' : List Level}
    (hl : List.Forall₂ Level.Matches levels levels') :
    Alike (Option.Rel Item.Matches) (lookupElsewhere d solve levels names)
      (lookupElsewhere d' solve' levels' names) := by
  unfold lookupElsewhere
  split
  · next first second rest =>
    rw [rootPath_congr hl]
    split
    · exact .ok .none
    · rcases optionRel_iff.mp (h.devices.findIdx? first) with
        ⟨left, right⟩ | ⟨i, j, left, right, p, p', hp, hp', m⟩
      · rw [peripheralIndex?, peripheralIndex?, left, right]
        exact .ok .none
      · rw [peripheralIndex?, peripheralIndex?, left, right]
        dsimp only
        rw [hp, hp']
        exact (h.basePeripheral_alike m).bind fun base base' mb =>
          h.followFrom_alike (.cons (ofPeripheral_matches m mb) .nil) _
  · exact .ok .none

theorem lookupReferent_alike {levels levels' : List Level}
    (hl : List.Forall₂ Level.Matches levels levels') (item item' : Item) (target : String) :
    Alike Item.Matches (lookupReferent d solve levels item target)
      (lookupReferent d' solve' levels' item' target) := by
  refine (h.lookupLevels_alike _ hl).bind fun found found' m => ?_
  cases m with
  | some m => exact .ok m
  | none =>
      refine (h.lookupElsewhere_alike _ hl).bind fun found found' m => ?_
      cases m with
      | some m => exact .ok m
      | none => exact .error

theorem referentOf_alike {levels levels' : List Level}
    (hl : List.Forall₂ Level.Matches levels levels') {item item' : Item} (m : item.Matches item')
    (path : String) :
    Alike (Option.Rel Item.Matches) (referentOf d solve levels item path)
      (referentOf d' solve' levels' item' path) := by
  unfold referentOf
  rw [m.derivedFrom_eq, m.kind_eq]
  cases item'.derivedFrom with
  | none => exact .ok .none
  | some target =>
      refine (h.lookupReferent_alike hl item item' target).bind fun found found' mf => ?_
      rw [mf.kind_eq]
      split
      · exact .ok (.some mf)
      · exact .error

section Nodes

variable {level level' : Level} {outer outer' : List Level}
variable (hl : List.Forall₂ Level.Matches (level :: outer) (level' :: outer'))

include hl

theorem itemBase_alike {item item' : Item} (m : item.Matches item') (path : String) :
    Alike (Option.Rel Item.Matches) (itemBase d solve level outer path item)
      (itemBase d' solve' level' outer' path item') := by
  refine (h.referentOf_alike hl m path).bind fun referent referent' mr => ?_
  rw [ofExcept_eq, ofExcept_eq, m.name_eq]
  exact baseOf_alike m mr ((List.forall₂_cons.mp hl).1.inherited.find? item'.name)

/-- **A child resolves to a matching child.** -/
theorem resolveItem_alike {item item' : Item} (m : item.Matches item') (place place' : Place)
    (path : String) :
    Alike Item.Matches (resolveItem d solve level outer place path item)
      (resolveItem d' solve' level' outer' place' path item') := by
  refine (h.itemBase_alike hl m path).bind fun base base' mb => ?_
  cases item with
  | register own =>
      obtain ⟨own', mo, rfl⟩ := Item.matches_register.mp m
      dsimp only
      rw [ofExcept_eq, ofExcept_eq]
      exact (resolveRegister_alike mo (asRegister?_matches mb)).bind fun r r' mr =>
        .ok (Item.matches_register.mpr ⟨r', mr, rfl⟩)
  | cluster own children =>
      obtain ⟨children', siblings, rfl⟩ := Item.matches_cluster.mp m
      have inner : Level.Matches ⟨place, path, children, inheritedChildren base⟩
          ⟨place', path, children', inheritedChildren base'⟩ :=
        ⟨rfl, siblings, inheritedChildren_matches mb⟩
      refine (h.resolveLevel_alike (.cons inner hl)).bind fun resolved resolved' ms => ?_
      rw [asClusterInfo?_congr mb]
      cases base'.bind asClusterInfo? with
      | none => exact .ok (Item.matches_cluster.mpr ⟨_, ms, rfl⟩)
      | some b => exact .ok (Item.matches_cluster.mpr ⟨_, ms, rfl⟩)

end Nodes

/-- **A peripheral resolves to a matching peripheral.** -/
theorem resolvePeripheralBody_alike {p p' : Peripheral} (m : p.Matches p') (i j : Nat) :
    Alike Peripheral.Matches (resolvePeripheralBody d solve i p)
      (resolvePeripheralBody d' solve' j p') := by
  refine (h.basePeripheral_alike m).bind fun base base' mb => ?_
  refine (h.resolveLevel_alike (.cons (ofPeripheral_matches m mb) .nil)).bind
    fun children children' ms => ?_
  obtain ⟨_, -, rfl⟩ := m
  cases mb with
  | none => exact .ok ⟨children', ms, rfl⟩
  | some mb =>
      obtain ⟨_, -, rfl⟩ := mb
      exact .ok ⟨children', ms, rfl⟩

end AlikeSolvers

/-- **The direct resolution in another order**, by induction on its depth: solvers of one depth more
answer by the steps, and these ask the solvers below. -/
theorem direct_alike {d d' : Device}
    (h : Siblings Peripheral.Matches Peripheral.name d.peripherals d'.peripherals) (n : Nat) :
    AlikeSolvers d d' (direct d n) (direct d' n) := by
  induction n with
  | zero => exact ⟨direct_closed d 0, direct_closed d' 0, h, fun _ => .error, fun _ _ => .error⟩
  | succ n ih =>
      refine ⟨direct_closed d _, direct_closed d' _, h, ?_, ?_⟩
      · rintro i j ⟨p, p', hi, hj, m⟩
        rw [direct, direct]
        dsimp only
        rw [hi, hj]
        exact ih.resolvePeripheralBody_alike m i j
      · rintro level outer level' outer' i j hl ⟨x, y, hi, hj, m⟩
        rw [direct, direct]
        dsimp only
        rw [hi, hj]
        dsimp only
        rw [(List.forall₂_cons.mp hl).1.path, m.name_eq]
        exact ih.resolveItem_alike hl m _ _ _

/-- Two orders of a description without two siblings of one name have matching peripherals. -/
theorem siblings_peripherals {d d' : Device} (h : d.Reordered d') (distinct : d.Distinct) :
    Siblings Peripheral.Matches Peripheral.name d.peripherals d'.peripherals := by
  obtain ⟨peripherals, shuffled, rfl⟩ := h
  refine ⟨shuffled.members.mono ?_, fun _ _ m => m.name_eq, distinct.1⟩
  rintro p _ ⟨hp, -, children, related, rfl⟩
  obtain ⟨names, inside⟩ := distinct.2 p hp
  exact ⟨children, siblings_of_reordered related names inside, rfl⟩

/-- **A description resolves in any order of siblings or in none**, and to the same nodes. -/
theorem resolve_alike {d d' : Device} (h : d.Reordered d') (distinct : d.Distinct) :
    Alike Device.Reordered (resolve d) (resolve d') := by
  have siblings := siblings_peripherals h distinct
  have all (n : Nat) := Alike.mapM siblings.range fun _ _ partners =>
    (direct_alike siblings n).peripheral partners
  obtain ⟨peripherals, -, rfl⟩ := h
  cases result : resolve d with
  | ok r =>
      -- The depth at which the one order has all its answers is enough for the other one.
      obtain ⟨same, n, answers⟩ := resolve_direct result
      obtain ⟨found, run, matching⟩ := (all n).exists_right (mapM_eq_ok.mpr answers)
      rw [resolve_of_direct run]
      refine .ok ⟨found, matching.mono ?_, by rw [same]⟩
      rintro p _ ⟨children, m, rfl⟩
      exact ⟨children, (reordered_of_siblings m).1, rfl⟩
  | error fault =>
      cases result' : resolve { d with peripherals } with
      | error fault' => exact .error
      | ok r' =>
          obtain ⟨-, n, answers⟩ := resolve_direct result'
          obtain ⟨found, run, -⟩ := (all n).exists_left (mapM_eq_ok.mpr answers)
          exact nomatch result.symm.trans (resolve_of_direct run)

end ChipMap.Inheritance
