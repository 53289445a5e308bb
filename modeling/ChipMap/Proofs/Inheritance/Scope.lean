import ChipMap.Proofs.Inheritance.FieldRule
import ChipMap.Proofs.Inheritance.Merged

/-!
# References name nodes of the result

A look-up resolves the nodes it passes through, one by one.  In a description that resolves, all of
them are part of the result, so **looking a reference up is the same as following its names through
the result** (`Answers.lookupReferent_ok`).

### What is load-bearing

The result is a fixed point of the steps (`Closed`): each of its nodes is what the step makes of the
described node when it asks for other nodes of the same result.  Depth and memory are gone from here
on.

A look-up sees levels, whose children are still described; the rule sees scopes, whose children are
resolved.  `Scopes` pairs the two, level by level, and each law of this module turns a search
through levels into a search through scopes.  The names are the same in both, because resolving a
node does not rename it.
-/

namespace ChipMap.Inheritance

open Description

/-- **Answers that the steps themselves give** when they ask for these answers.  Every answer comes
from a described node. -/
structure Closed (d : Device) (solve : Solvers (Except ReferenceFault)) : Prop where
  peripheral : ∀ {i q}, solve.peripheral i = .ok q →
    ∃ p, d.peripherals[i]? = some p ∧ resolvePeripheralBody d solve i p = .ok q
  child : ∀ {level outer i x}, solve.child (level :: outer) i = .ok x →
    ∃ item, level.own[i]? = some item ∧
      resolveItem d solve level outer (level.place.child i) (childPath level.path item.name)
        item = .ok x

/-- More depth does not change an answer, so the answers of one depth are given by the steps at this
same depth. -/
theorem direct_closed (d : Device) (n : Nat) : Closed d (direct d n) := by
  cases n with
  | zero =>
      refine ⟨?_, ?_⟩
      · intro i q h
        cases h
      · intro level outer i x h
        cases h
  | succ n =>
      have deeper := agree_direct d (Nat.le_succ n)
      refine ⟨?_, ?_⟩
      · intro i q h
        obtain ⟨p, found, h⟩ := direct_peripheral_ok.mp h
        exact ⟨p, found, (Agreement.rel_resolvePeripheralBody (P := True) deeper found) q h⟩
      · intro level outer i x h
        obtain ⟨item, found, h⟩ := direct_child_ok.mp h
        exact ⟨item, found, (Agreement.rel_resolveItem (P := True) deeper (fun _ => trivial)
          _ _ item fun _ _ _ _ _ _ => trivial) x h⟩

/-! ### One register, one cluster, one level -/

section Steps

variable {d : Device} {solve : Solvers (Except ReferenceFault)}

/-- A resolved register has the attributes of its base behind its own ones, and its
fields follow the rule. -/
theorem resolveRegister_ok {own r : Register} {base : Option Register} {path : String}
    (h : resolveRegister own base path = .ok r) :
    FieldsFollow TakesFirsts own.fields ((base.map (·.fields)).getD []) r.fields ∧
      ∃ fields, r = { (base.elim { own with derivedFrom := none } own.orElse) with fields } := by
  obtain ⟨kept, hkept, h⟩ := bind_eq_ok.mp h
  have follow := fieldsFollow_of_resolveFields hkept
  cases base with
  | none =>
      obtain rfl := Except.ok.inj h
      refine ⟨?_, kept, rfl⟩
      simpa [undefinedFields, firstOfEachName] using follow
  | some b =>
      obtain rfl := Except.ok.inj h
      refine ⟨?_, _, rfl⟩
      have names : kept.map (·.name) = own.fields.map (·.name) :=
        names_of_forall₂ Field.name (forall₂_of_range (mapM_eq_ok.mp hkept)) <| by
          rintro f kept ⟨i, hown, -, hf⟩
          exact resolveField_name hown hf
      dsimp only
      rw [appendNewNames_eq, undefinedFields_congr names]
      exact follow

theorem resolveItem_name_kind {level : Level} {outer : List Level} {place : Place}
    {path : String} {item x : Item}
    (h : resolveItem d solve level outer place path item = .ok x) :
    x.name = item.name ∧ x.kind = item.kind := by
  obtain ⟨base, -, h⟩ := bind_eq_ok.mp h
  cases item with
  | register own =>
      obtain ⟨r, hr, h⟩ := bind_eq_ok.mp h
      obtain rfl := Except.ok.inj h
      rw [ofExcept_eq] at hr
      obtain ⟨-, fields, rfl⟩ := resolveRegister_ok hr
      cases base.bind asRegister? with
      | none => exact ⟨rfl, rfl⟩
      | some b => exact ⟨rfl, rfl⟩
  | cluster own children =>
      obtain ⟨resolved, -, h⟩ := bind_eq_ok.mp h
      cases hbase : base.bind asClusterInfo? with
      | none =>
          rw [hbase] at h
          obtain rfl := Except.ok.inj h
          exact ⟨rfl, rfl⟩
      | some b =>
          rw [hbase] at h
          obtain rfl := Except.ok.inj h
          exact ⟨rfl, rfl⟩

/-- The children of a resolved level: the own ones, and the undefined ones behind them. -/
theorem resolveLevel_ok {level : Level} {outer : List Level} {scope : List Item}
    (h : resolveLevel solve level outer = .ok scope) :
    ∃ kept, scope = kept ++ undefinedItems level.own level.inherited ∧
      List.Forall₂ (fun i x => solve.child (level :: outer) i = .ok x)
        (List.range level.own.length) kept := by
  obtain ⟨kept, hkept, h⟩ := bind_eq_ok.mp h
  exact ⟨kept, (Except.ok.inj h).symm, mapM_eq_ok.mp hkept⟩

/-- A resolved peripheral: its base, its children, and its attributes behind. -/
theorem resolvePeripheralBody_ok {i : Nat} {p q : Peripheral}
    (h : resolvePeripheralBody d solve i p = .ok q) :
    ∃ base children, basePeripheral d solve p = .ok base ∧
      resolveLevel solve (Level.ofPeripheral i p base) [] = .ok children ∧
      q = { (base.elim p p.orElse) with children } := by
  obtain ⟨base, hbase, h⟩ := bind_eq_ok.mp h
  obtain ⟨children, hchildren, h⟩ := bind_eq_ok.mp h
  refine ⟨base, children, hbase, hchildren, ?_⟩
  cases base with
  | none => exact (Except.ok.inj h).symm
  | some b => exact (Except.ok.inj h).symm

/-! ### Look-ups -/

variable (closed : Closed d solve)

include closed

theorem names_of_resolved {level : Level} {outer : List Level} {kept : List Item}
    (each : List.Forall₂ (fun i x => solve.child (level :: outer) i = .ok x)
      (List.range level.own.length) kept) :
    kept.map (·.name) = level.own.map (·.name) := by
  refine names_of_forall₂ Item.name (forall₂_of_range each) ?_
  rintro own x ⟨i, hown, -, hx⟩
  obtain ⟨item, hitem, hx⟩ := closed.child hx
  obtain rfl := Option.some.inj (hown.symm.trans hitem)
  exact (resolveItem_name_kind hx).1

/-- **A name among siblings** finds the resolved sibling. -/
theorem findInLevel_eq {level : Level} {outer : List Level} {scope : List Item}
    (h : resolveLevel solve level outer = .ok scope) (name : String) :
    findInLevel solve level outer name = .ok (itemNamed? scope name) := by
  obtain ⟨kept, rfl, each⟩ := resolveLevel_ok h
  rw [itemNamed?_append_undefined (names_of_resolved closed each), findInLevel]
  cases found : level.own.findIdx? fun item => item.name == name with
  | none => rfl
  | some i =>
      have inside := (List.findIdx?_eq_some_iff_getElem.mp found).1
      obtain ⟨x, hx, value⟩ := getElem?_of_range each inside
      dsimp only
      rw [value, hx]
      rfl

/-- **A path of names from some siblings** leads to the node that it leads to in the
result. -/
theorem followFrom_eq {level : Level} {outer : List Level} {scope : List Item}
    (h : resolveLevel solve level outer = .ok scope) (names : List String) :
    followFrom solve level outer names = .ok (namedBy scope names) := by
  cases names with
  | nil => rfl
  | cons first rest =>
      rw [followFrom, findInLevel_eq closed h, namedBy]
      cases itemNamed? scope first with
      | none => rfl
      | some item => rfl

end Steps

/-- **The scopes of some levels**: what each of them resolves to, from the inside out. -/
inductive Scopes (solve : Solvers (Except ReferenceFault)) :
    List Level → List (List Item) → Prop
  | nil : Scopes solve [] []
  | cons {level : Level} {outer : List Level} {scope : List Item} {scopes : List (List Item)} :
    resolveLevel solve level outer = .ok scope → Scopes solve outer scopes →
      Scopes solve (level :: outer) (scope :: scopes)

/-- **A path of names looked up from the inside out** leads to the node that it leads to
in the scopes. -/
theorem lookupLevels_eq {d : Device} {solve : Solvers (Except ReferenceFault)}
    (closed : Closed d solve) {levels : List Level} {scopes : List (List Item)}
    (h : Scopes solve levels scopes) (names : List String) :
    lookupLevels solve names levels = .ok (nearest? (rootPath levels) names scopes) := by
  induction h with
  | nil => rfl
  | @cons level outer scope scopes here around ih =>
      cases around with
      | cons next others =>
          rw [lookupLevels, followFrom_eq closed here, nearest?]
          · cases namedBy scope names with
            | some item => rfl
            | none => exact ih
          · exact List.cons_ne_nil _ _
          · intro _ _ same
            cases same
      | nil =>
          cases names with
          | nil => rfl
          | cons first rest =>
              rw [lookupLevels, followFrom_eq closed here, nearest?]
              cases namedBy scope (first :: rest) with
              | some item => rfl
              | none =>
                  -- Only around the outermost level there is a name in front to be left out.
                  have root : rootPath [level] = level.path := rfl
                  simp only [root, List.head?_cons, Option.some.injEq, List.tail_cons,
                    Option.none_or, eq_comm (a := first)]
                  change (if level.path = first then _ else _) = _
                  split
                  · exact followFrom_eq closed here rest
                  · rfl

/-! ### References -/

/-- **The answers that make up a result**: those for its peripherals, and all that the steps ask for
on the way. -/
structure Answers (d r : Device) (solve : Solvers (Except ReferenceFault)) : Prop where
  closed : Closed d solve
  peripherals : List.Forall₂ (fun i q => solve.peripheral i = .ok q)
    (List.range d.peripherals.length) r.peripherals

/-- A result consists of answers of the direct resolution. -/
theorem answers_of_resolve {d r : Device} (h : resolve d = .ok r) :
    r = { d with peripherals := r.peripherals } ∧ ∃ solve, Answers d r solve := by
  obtain ⟨device, n, all⟩ := resolve_direct h
  exact ⟨device, direct d n, direct_closed d n, all⟩

section References

variable {d r : Device} {solve : Solvers (Except ReferenceFault)} (answers : Answers d r solve)

include answers

theorem Answers.each : List.Forall₂ (fun p q => ∃ i, resolvePeripheralBody d solve i p = .ok q)
    d.peripherals r.peripherals := by
  refine (forall₂_of_range answers.peripherals).imp ?_
  rintro p q ⟨i, hp, -, hq⟩
  obtain ⟨p', hp', hq⟩ := answers.closed.peripheral hq
  obtain rfl := Option.some.inj (hp.symm.trans hp')
  exact ⟨i, hq⟩

theorem Answers.names : r.peripherals.map (·.name) = d.peripherals.map (·.name) := by
  refine names_of_forall₂ Peripheral.name answers.each ?_
  rintro p q ⟨i, h⟩
  obtain ⟨base, children, -, -, rfl⟩ := resolvePeripheralBody_ok h
  cases base with
  | none => rfl
  | some b => rfl

/-- **The number of a name** is that of the peripheral of the result with the name. -/
theorem Answers.peripheralNamed? (name : String) :
    peripheralNamed? r name = (peripheralIndex? d name).bind fun j => r.peripherals[j]? := by
  unfold Inheritance.peripheralNamed?
  cases found : peripheralIndex? d name with
  | some j => exact find?_of_findIdx? Peripheral.name answers.names found
  | none =>
      rw [Option.bind_none, List.find?_eq_none]
      have nowhere : (d.peripherals.any fun p => p.name == name) = false := by
        rw [List.any_eq_false]
        exact fun p hp => Bool.eq_false_iff.mp (List.findIdx?_eq_none_iff.mp found p hp)
      have nowhere' := (any_name_congr Peripheral.name answers.names name).trans nowhere
      exact fun p hp => by simpa using List.any_eq_false.mp nowhere' p hp

/-- **The base of a peripheral** is the peripheral of the result that it names. -/
theorem Answers.basePeripheral_ok {p : Peripheral} {base : Option Peripheral}
    (h : basePeripheral d solve p = .ok base) :
    base = p.derivedFrom.bind (Inheritance.peripheralNamed? r) ∧
      (p.derivedFrom.isSome → base.isSome) := by
  unfold basePeripheral at h
  cases hderived : p.derivedFrom with
  | none =>
      rw [hderived] at h
      obtain rfl := Except.ok.inj h
      exact ⟨rfl, fun absurd => absurd⟩
  | some target =>
      rw [hderived] at h
      dsimp only at h
      rw [Option.bind_some, answers.peripheralNamed?]
      cases hindex : peripheralIndex? d target with
      | none =>
          rw [hindex] at h
          cases h
      | some j =>
          rw [hindex] at h
          have inside := (List.findIdx?_eq_some_iff_getElem.mp hindex).1
          obtain ⟨q, hq, value⟩ := getElem?_of_range answers.peripherals inside
          dsimp only at h
          rw [value] at h
          obtain rfl := Except.ok.inj h
          exact ⟨hq.symm, fun _ => rfl⟩

/-- **A path of names into another peripheral** leads to the node that it leads to in
the result. -/
theorem Answers.lookupElsewhere_eq (levels : List Level) (names : List String) :
    lookupElsewhere d solve levels names = .ok (elsewhere? r (rootPath levels) names) := by
  cases names with
  | nil => rfl
  | cons first rest =>
      rw [elsewhere?]
      cases rest with
      | nil =>
          split
          · rfl
          · cases Inheritance.peripheralNamed? r first with
            | none => rfl
            | some q => rfl
      | cons second rest =>
          rw [lookupElsewhere]
          split
          · rfl
          · rw [answers.peripheralNamed?]
            cases hindex : peripheralIndex? d first with
            | none => rfl
            | some j =>
                -- The peripheral that is found resolved, so its base and its children did.
                have inside := (List.findIdx?_eq_some_iff_getElem.mp hindex).1
                obtain ⟨q, hq, value⟩ := getElem?_of_range answers.peripherals inside
                obtain ⟨p, hp, value⟩ := answers.closed.peripheral value
                obtain ⟨base, children, hbase, hchildren, rfl⟩ :=
                  resolvePeripheralBody_ok value
                dsimp only
                rw [hp, Option.bind_some, hq]
                dsimp only
                rw [hbase]
                exact followFrom_eq answers.closed hchildren (second :: rest)

/-- **A reference that is found names its node in the result.** -/
theorem Answers.lookupReferent_ok {levels : List Level} {scopes : List (List Item)}
    (hscopes : Scopes solve levels scopes) {item x : Item} {target : String}
    (h : lookupReferent d solve levels item target = .ok x) :
    referent? r (rootPath levels) scopes target = some x := by
  rw [lookupReferent, lookupLevels_eq answers.closed hscopes,
    answers.lookupElsewhere_eq levels] at h
  rw [referent?]
  cases hnear : nearest? (rootPath levels) (pathNames target) scopes with
  | some found =>
      rw [hnear] at h
      obtain rfl := Except.ok.inj h
      rfl
  | none =>
      rw [hnear] at h
      cases hfar : elsewhere? r (rootPath levels) (pathNames target) with
      | none =>
          rw [hfar] at h
          cases h
      | some found =>
          rw [hfar] at h
          obtain rfl := Except.ok.inj h
          rfl

end References

end ChipMap.Inheritance
