import ChipMap.Proofs.Inheritance.Merged
import ChipMap.Proofs.Inheritance.Orderly

/-!
# The steps of a resolution are orderly

Every step asks only for nodes that the node it is taken for needs (`OrderlySolvers`), and every
other fault it may report is no cycle.  So the resolver is orderly at any fuel (`orderly_solvers`).

### What is load-bearing

Needs are defined by where a search looks, and a search looks at a level only when it failed further
inside.  In the steps this failure is a branch: the search at a level returned nothing.
`Orderly.bind` gives the branch the equation of the direct reading, and `Comes.outward` turns it
into a search that has come one level further.

The laws follow the steps from the search for one name to the whole peripheral, in the order of
their definitions.  Each of them says for which node it is taken: the node with the reference for a
search, and the node itself for what is inside it.
-/

namespace ChipMap.Inheritance

open Description

/-! ### Merging reports no cycle -/

theorem mergeItems_ne_cycle {kind : ItemKind} {chain : List String} {children : List Item}
    (each : ∀ c ∈ children, ∀ path base, mergeItem path base c ≠ .error (.cycle kind chain))
    {path : String} {inherited : List Item} :
    mergeItems path inherited children ≠ .error (.cycle kind chain) := by
  intro h
  rw [mergeItems_eq_mapM] at h
  obtain ⟨c, hc, failed⟩ := exists_of_mapM_eq_error h
  unfold mergeChild at failed
  split at failed
  · exact each c hc _ _ failed
  · cases failed

/-- **Nodes that are merged have no cycle**, only nodes of different kinds. -/
theorem mergeItem_ne_cycle (item : Item) : ∀ {path : String} {base : Item} {kind : ItemKind}
    {chain : List String}, mergeItem path base item ≠ .error (.cycle kind chain) := by
  induction item using Item.induct with
  | register own =>
      intro path base kind chain h
      cases base with
      | register b => rw [mergeItem] at h; cases h
      | cluster b inherited => rw [mergeItem] at h; cases h
  | cluster own children ih =>
      intro path base kind chain h
      cases base with
      | register b => rw [mergeItem] at h; cases h
      | cluster b inherited =>
          rw [mergeItem] at h
          rcases bind_eq_error.mp h with merged | ⟨_, -, h⟩
          · exact mergeItems_ne_cycle (fun c hc _ _ => ih c hc) merged
          · cases h

/-- The base of a node is no cycle.  Merging may only find nodes of different kinds. -/
theorem baseOf_ne_cycle {item : Item} {path : String} {referent counterpart : Option Item}
    {kind : ItemKind} {chain : List String} :
    baseOf item path referent counterpart ≠ .error (.cycle kind chain) := by
  intro h
  cases referent with
  | none =>
      cases counterpart with
      | none => cases h
      | some c =>
          rw [baseOf] at h
          split at h
          · cases h
          · cases h
  | some r =>
      cases counterpart with
      | none => cases h
      | some c =>
          rw [baseOf, map_eq_pure_bind] at h
          rcases bind_eq_error.mp h with merged | ⟨_, -, h⟩
          · exact mergeItem_ne_cycle r merged
          · cases h

/-- A cycle of a register is one among its fields. -/
theorem resolveRegister_circle {own : Register} {base : Option Register} {path : String}
    {kind : ItemKind} {chain : List String}
    (h : resolveRegister own base path = .error (.cycle kind chain)) :
    kind = .field ∧ FieldCircle path own.fields chain := by
  rcases bind_eq_error.mp h with fields | ⟨kept, -, h⟩
  · exact resolveFields_circle fields
  · cases base with
    | none => cases h
    | some b => cases h

/-! ### Searches -/

/-- A search that failed at a level comes to the levels around it, one at a time. -/
theorem Comes.outward {d : Device} {names : List String} {all outer : List Level} {level : Level}
    (h : Comes d names all (level :: outer))
    (failed : ∃ n, followFrom (direct d n) level outer names = .ok none) :
    Comes d names all outer := by
  generalize reached : level :: outer = levels at h
  induction h with
  | here =>
      subst reached
      exact .further failed .here
  | further earlier _ ih => exact .further earlier (ih reached)

/-! ### The steps -/

/-- **Solvers that are orderly for every node that needs what they are asked for.** -/
structure OrderlySolvers (d : Device) (fuel : Nat) (solve solve' : Solvers Resolving) : Prop where
  agree : (remembers d).Agree d (Chain d) solve (direct d)
  peripheral : ∀ {q : Option Place} {P : Prop} {i : Nat}, (P → i < d.peripherals.length) →
    (P → ∀ w ∈ q, Needs d w ⟨i, []⟩) →
      Orderly d fuel q P (solve.peripheral i) (solve'.peripheral i)
  child : ∀ {q : Option Place} {P : Prop} {level : Level} {outer : List Level} {i : Nat},
    (P → Chain d (level :: outer)) → (P → i < level.own.length) →
      (P → ∀ w ∈ q, Needs d w (level.place.child i)) →
        Orderly d fuel q P (solve.child (level :: outer) i) (solve'.child (level :: outer) i)

namespace OrderlySolvers

variable {d : Device} {fuel : Nat} {solve solve' : Solvers Resolving} {P : Prop}
variable (h : OrderlySolvers d fuel solve solve')

include h

theorem basePeripheral {q : Option Place} {p : Peripheral}
    (needed : P → ∀ target j, p.derivedFrom = some target → peripheralIndex? d target = some j →
      ∀ w ∈ q, Needs d w ⟨j, []⟩) :
    Orderly d fuel q P (basePeripheral d solve p) (basePeripheral d solve' p) := by
  unfold Inheritance.basePeripheral
  cases derived : p.derivedFrom with
  | none => exact .pure none
  | some target =>
      dsimp only
      cases index : peripheralIndex? d target with
      | none => exact .throw fun _ _ _ same => by cases same
      | some j =>
          have inside := (List.findIdx?_eq_some_iff_getElem.mp index).1
          exact .map _ ((h.agree.peripheral j).weaken fun _ => trivial)
            (h.peripheral (fun _ => inside) fun p => needed p target j derived index)

theorem resolveLevel {q : Option Place} {level : Level} {outer : List Level}
    (chain : P → Chain d (level :: outer))
    (needed : P → ∀ i < level.own.length, ∀ w ∈ q, Needs d w (level.place.child i)) :
    Orderly d fuel q P (resolveLevel solve level outer) (resolveLevel solve' level outer) := by
  have reading (i : Nat) : Remembers d P (solve.child (level :: outer) i)
      fun n => (direct d n).child (level :: outer) i := (h.agree.child _ i).weaken chain
  unfold Inheritance.resolveLevel
  refine .bind (Agreement.rel_mapM (S := remembers d) (solve.child (level :: outer))
    (fun i n => (direct d n).child (level :: outer) i) _ fun i _ => reading i) ?_ fun _ => .pure _
  refine .mapM (fun i _ => reading i) fun i hi => ?_
  have inside := List.mem_range.mp hi
  exact h.child chain (fun _ => inside) fun p => needed p i inside

/-- **From a level where a search looks**, only nodes on the path are asked for. -/
theorem followFrom {w : Place} {level : Level} {outer : List Level} {names : List String}
    (chain : P → Chain d (level :: outer)) (looks : P → Looks d w level.place names) :
    Orderly d fuel (some w) P (followFrom solve level outer names)
      (followFrom solve' level outer names) := by
  cases names with
  | nil => exact .pure none
  | cons first rest =>
      refine .bind (Agreement.rel_findInLevel h.agree chain first) ?_ fun found => ?_
      · unfold findInLevel
        cases index : level.own.findIdx? fun item => item.name == first with
        | none => exact .pure _
        | some i =>
            have inside := (List.findIdx?_eq_some_iff_getElem.mp index).1
            refine .map _ ((h.agree.child _ i).weaken chain) (h.child chain (fun _ => inside) ?_)
            rintro p _ ⟨⟩
            exact .named (looks p) (((chain p).childIndex? first).trans index)
      · cases found with
        | none => exact .pure none
        | some item => exact .pure _

/-- **From the inside out.**  The levels that are left are those that the search has come to. -/
theorem lookupLevels {w : Place} {names : List String} {all levels : List Level}
    (refs : P → References d w all names) (comes : P → Comes d names all levels)
    (chain : P → levels ≠ [] → Chain d levels) :
    Orderly d fuel (some w) P (lookupLevels solve names levels)
      (lookupLevels solve' names levels) := by
  induction levels generalizing P with
  | nil => exact .pure none
  | cons level outer ih =>
      have here : P → Chain d (level :: outer) := fun p => chain p (by simp)
      unfold Inheritance.lookupLevels
      refine .bind (Agreement.rel_followFrom h.agree here names)
        (h.followFrom here fun p => .around (refs p) (comes p)) fun found => ?_
      cases found with
      | some item => exact .pure _
      | none =>
          cases outer with
          | cons next outer =>
              exact ih (fun p => refs p.1) (fun p => (comes p.1).outward p.2)
                fun p _ => (here p.1).tail
          | nil =>
              -- At the outermost level the path of the peripheral may stand in front of the names.
              cases names with
              | nil => exact .pure none
              | cons first rest =>
                  dsimp only
                  split
                  · next same =>
                    exact h.followFrom (fun p => here p.1) fun p =>
                      .root (refs p.1) (comes p.1) p.2 same
                  · exact .pure none

/-- **From another peripheral**, when the search has failed at all levels around. -/
theorem lookupElsewhere {w : Place} {levels : List Level} {names : List String}
    (refs : P → References d w levels names)
    (failed : P → ∃ n, Inheritance.lookupLevels (direct d n) names levels = .ok none) :
    Orderly d fuel (some w) P (lookupElsewhere d solve levels names)
      (lookupElsewhere d solve' levels names) := by
  unfold Inheritance.lookupElsewhere
  split
  · next first second rest =>
    split
    · exact .pure none
    · next other =>
      cases index : peripheralIndex? d first with
      | none => exact .pure none
      | some j =>
          have leaves : P → Leaves d w j (second :: rest) := fun p =>
            .mk (refs p) (failed p) other index
          dsimp only
          cases found : d.peripherals[j]? with
          | none => exact .pure none
          | some other =>
              dsimp only
              refine .bind (Agreement.rel_basePeripheral h.agree other) (h.basePeripheral ?_)
                fun base => ?_
              · rintro p target k derived index' _ ⟨⟩
                exact .baseElsewhere (leaves p) found derived index'
              · refine h.followFrom (fun p => ?_) fun p => .elsewhere (leaves p.1)
                obtain ⟨n, hbase⟩ := p.2
                exact .ofPeripheral found hbase
  · exact .pure none

theorem lookupReferent {w : Place} {levels : List Level} {item : Item} {target : String}
    (refs : P → References d w levels (pathNames target)) (chain : P → Chain d levels) :
    Orderly d fuel (some w) P (lookupReferent d solve levels item target)
      (lookupReferent d solve' levels item target) := by
  unfold Inheritance.lookupReferent
  refine .bind (Agreement.rel_lookupLevels h.agree _ fun p _ => chain p)
    (h.lookupLevels refs (fun _ => .here) fun p _ => chain p) fun near => ?_
  cases near with
  | some found => exact .pure found
  | none =>
      refine .bind (Agreement.rel_lookupElsewhere h.agree levels _)
        (h.lookupElsewhere (fun p => refs p.1) And.right) fun far => ?_
      cases far with
      | some found => exact .pure found
      | none => exact .throw fun _ _ _ same => by cases same

theorem referentOf {w : Place} {levels : List Level} {item : Item} {path : String}
    (refs : P → ∀ target, item.derivedFrom = some target →
      References d w levels (pathNames target)) (chain : P → Chain d levels) :
    Orderly d fuel (some w) P (referentOf d solve levels item path)
      (referentOf d solve' levels item path) := by
  unfold Inheritance.referentOf
  cases derived : item.derivedFrom with
  | none => exact .pure none
  | some target =>
      refine .bind (Agreement.rel_lookupReferent h.agree (fun p _ => chain p) item target)
        (h.lookupReferent (fun p => refs p target derived) chain) fun found => ?_
      split
      · exact .pure _
      · exact .throw fun _ _ _ same => by cases same

/-- **A child of a level**: the search is for this child, and so is what is asked for inside. -/
theorem resolveItem {level : Level} {outer : List Level} {i : Nat} {item : Item}
    (found : level.own[i]? = some item) (chain : P → Chain d (level :: outer)) :
    Orderly d fuel (some (level.place.child i)) P
      (resolveItem d solve level outer (level.place.child i) (childPath level.path item.name) item)
      (resolveItem d solve' level outer (level.place.child i) (childPath level.path item.name)
        item) := by
  have base : Orderly d fuel (some (level.place.child i)) P
      (itemBase d solve level outer (childPath level.path item.name) item)
      (itemBase d solve' level outer (childPath level.path item.name) item) := by
    unfold itemBase
    refine .bind (Agreement.rel_referentOf h.agree (fun p _ => chain p) item _) ?_
      fun referent => ?_
    · exact h.referentOf (fun p target derived => .mk (chain p) found derived) chain
    · exact .ofExcept fun _ _ _ fault => absurd fault baseOf_ne_cycle
  unfold Inheritance.resolveItem
  refine .bind (Agreement.rel_itemBase h.agree chain _ item) base fun b => ?_
  cases item with
  | register own =>
      -- The fields are resolved apart, and their circles are circles of their own kind.
      refine .bind (Agreement.rel_ofExcept (S := remembers d) _) (.ofExcept ?_) fun _ => .pure _
      intro p kind chain' fault
      obtain ⟨rfl, circle⟩ := resolveRegister_circle fault
      obtain ⟨children, -⟩ := (chain p.1).isAt
      exact .fields children found ((chain p.1).child_isAt found) circle
  | cluster own children =>
      have inside : (P ∧ ∃ n, itemBase d (direct d n) level outer (childPath level.path own.name)
          (.cluster own children) = .ok b) →
          Chain d (⟨level.place.child i, childPath level.path own.name, children,
            inheritedChildren b⟩ :: level :: outer) := by
        rintro ⟨p, n, hbase⟩
        exact .ofCluster (chain p) found hbase
      dsimp only
      refine .bind (Agreement.rel_resolveLevel h.agree inside) (h.resolveLevel inside ?_)
        fun resolved => ?_
      · rintro p k hk _ ⟨⟩
        exact .child (inside p).isAt.1 hk
      · cases b.bind asClusterInfo? with
        | none => exact .pure _
        | some info => exact .pure _

/-- **A peripheral**, with what it derives from and its children. -/
theorem resolvePeripheralBody {i : Nat} {p : Peripheral} (found : d.peripherals[i]? = some p) :
    Orderly d fuel (some ⟨i, []⟩) P (resolvePeripheralBody d solve i p)
      (resolvePeripheralBody d solve' i p) := by
  unfold Inheritance.resolvePeripheralBody
  refine .bind (Agreement.rel_basePeripheral h.agree p) (h.basePeripheral ?_) fun base => ?_
  · rintro - target j derived index _ ⟨⟩
    exact .base found derived index
  · have inside : (P ∧ ∃ n, Inheritance.basePeripheral d (direct d n) p = .ok base) →
        Chain d [Level.ofPeripheral i p base] := by
      rintro ⟨-, n, hbase⟩
      exact .ofPeripheral found hbase
    refine .bind (Agreement.rel_resolveLevel h.agree inside) (h.resolveLevel inside ?_)
      fun children => ?_
    · rintro c k hk _ ⟨⟩
      exact .child (inside c).isAt.1 hk
    · cases base with
      | none => exact .pure _
      | some b => exact .pure _

end OrderlySolvers

/-- **The resolver is orderly**, with any fuel. -/
theorem orderly_solvers (d : Device) (fuel : Nat) :
    OrderlySolvers d fuel (solvers d fuel) (solvers d (fuel + 1)) := by
  induction fuel with
  | zero =>
      -- No fuel is enough for a place that waits.
      have never {q : Option Place} {P : Prop} {α : Type} {c c' : Resolving α} :
          Orderly d 0 q P c c' :=
        ⟨fun _ _ ready => absurd ready Ready.not_zero, fun _ _ ready => absurd ready Ready.not_zero,
          fun _ _ ready => absurd ready Ready.not_zero⟩
      exact ⟨agree_solvers d 0, fun _ _ => never, fun _ _ _ => never⟩
  | succ fuel ih =>
      refine ⟨agree_solvers d _, ?_, ?_⟩
      · intro q P i inside needed
        rw [solvers, solvers]
        dsimp only
        cases found : d.peripherals[i]? with
        | none =>
            have out := List.getElem?_eq_none_iff.mp found
            exact .throw fun p _ _ _ => absurd (inside p) (Nat.not_lt.mpr out)
        | some p =>
            exact .once (.during (fun _ => .peripheral found) needed
              (ih.resolvePeripheralBody found))
      · intro q P level outer i chain inside needed
        rw [solvers, solvers]
        dsimp only
        cases found : level.own[i]? with
        | none =>
            have out := List.getElem?_eq_none_iff.mp found
            exact .throw fun p _ _ _ => absurd (inside p) (Nat.not_lt.mpr out)
        | some item =>
            exact .once (.during (fun p => (chain p).child_isAt found) needed
              (ih.resolveItem found chain))

end ChipMap.Inheritance
