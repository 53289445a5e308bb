import ChipMap.Proofs.Inheritance.Acyclic
import ChipMap.Proofs.Inheritance.OrderlySteps

/-!
# Resolution settles

Whatever the references of a description are, its resolution comes to an end, and it comes to the
right one: **fuel above the number of nodes is enough, a node that reaches itself by its references
is a fault, and a cycle that is reported is one** (`resolve_settles`).

### What is load-bearing

A resolution without fuel would report a cycle without a single node.  No circle is that short, so
the last part says once more that the fuel is never used up.

The three parts come from three modules and meet here only.  That the fuel is enough and that cycles
are circles is orderliness (`orderly_solvers`); that a node which reaches itself is a fault is the
contrapositive of what is known of descriptions that resolve (`Refers.not_cyclic`).
-/

namespace ChipMap.Inheritance

open Description Relation

/-- The resolution of a description in which `fuel` nodes may get under way. -/
def resolveWith (d : Device) (fuel : Nat) : Except ReferenceFault Device := do
  let resolveAll := (List.range d.peripherals.length).mapM fun i => (solvers d fuel).peripheral i
  let peripherals ← (resolveAll.runWith .fresh).1
  return { d with peripherals }

theorem head?_eq_getLast?_of_forall₂ {α β : Type} {R : α → β → Prop} {xs : List α} {ys : List β}
    (h : List.Forall₂ R xs ys) (unique : ∀ x y y', R x y → R x y' → y = y')
    (ends : xs.head? = xs.getLast?) : ys.head? = ys.getLast? := by
  rw [List.getLast?_eq_head?_reverse] at ends ⊢
  have backward := List.forall₂_reverse_iff.mpr h
  cases h with
  | nil => rfl
  | @cons x y xs ys first _ =>
      generalize (x :: xs).reverse = xs' at ends backward
      generalize (y :: ys).reverse = ys' at backward
      cases backward with
      | nil => cases ends
      | cons last _ =>
          obtain rfl := Option.some.inj ends
          exact congrArg some (unique x _ _ first last)

/-- **A circle is shown as two texts or more**, the last of which is the first again. -/
theorem Circle.ends {d : Device} {kind : ItemKind} {chain : List String}
    (h : Circle d kind chain) : 2 ≤ chain.length ∧ chain.head? = chain.getLast? := by
  cases h with
  | nodes long ends _ _ shown =>
      refine ⟨shown.length_eq ▸ long, head?_eq_getLast?_of_forall₂ shown ?_ ends⟩
      rintro p text text' ⟨_, at_⟩ ⟨_, at'⟩
      exact at_.path_unique at'
  | fields _ _ _ circle =>
      obtain ⟨numbers, long, ends, -, shown⟩ := circle
      refine ⟨shown.length_eq ▸ long, head?_eq_getLast?_of_forall₂ shown ?_ ends⟩
      rintro k text text' ⟨f, found, rfl⟩ ⟨f', found', rfl⟩
      rw [Option.some.inj (found.symm.trans found')]

/-- **The resolution of a description settles.**  Fields are resolved with fuel of their own, so
they have a part for it. -/
structure Settles (d : Device) : Prop where
  /-- Fuel above the number of nodes changes nothing. -/
  fuel : ∀ fuel, nodeCount d < fuel → resolveWith d fuel = resolve d
  /-- Fuel above the number of fields changes nothing. -/
  fieldFuel : ∀ (s : FieldScope) (fuel : Nat), s.own.length < fuel →
    ((List.range s.own.length).mapM fun i => resolveField s fuel [] i) = resolveFields s
  /-- A peripheral, register or cluster that reaches itself is a fault. -/
  nodeFault : ∀ q, TransGen (Refers d) q q → ∃ fault, resolve d = .error fault
  /-- A field that reaches itself is a fault. -/
  fieldFault : ∀ field, TransGen (FieldRefers d) field field → ∃ fault, resolve d = .error fault
  /-- A cycle that is reported is a circle of needs, and shown as one. -/
  circle : ∀ kind chain, resolve d = .error (.cycle kind chain) →
    Circle d kind chain ∧ 2 ≤ chain.length ∧ chain.head? = chain.getLast?

theorem ready_fresh {d : Device} {fuel : Nat} (enough : nodeCount d < fuel) :
    Ready d fuel none .fresh where
  coherent := Resolver.coherent_fresh d
  stacked := .nil
  latest := rfl
  fuel := enough

/-- All peripherals, one after another, are resolved orderly. -/
theorem orderly_resolveAll (d : Device) (fuel : Nat) : Orderly d fuel none True
    ((List.range d.peripherals.length).mapM fun i => (solvers d fuel).peripheral i)
    ((List.range d.peripherals.length).mapM fun i => (solvers d (fuel + 1)).peripheral i) := by
  refine .mapM (fun i _ => (agree_solvers d fuel).peripheral i) fun i hi => ?_
  exact (orderly_solvers d fuel).peripheral (fun _ => List.mem_range.mp hi)
    fun _ w hw => nomatch hw

theorem resolveWith_succ {d : Device} {fuel : Nat} (enough : nodeCount d < fuel) :
    resolveWith d (fuel + 1) = resolveWith d fuel := by
  have same := (orderly_resolveAll d fuel).steady trivial .fresh (ready_fresh enough)
  rw [resolveWith, same, resolveWith]

/-- Fuel above the number of nodes is enough. -/
theorem resolveWith_eq_resolve {d : Device} {fuel : Nat} (enough : nodeCount d < fuel) :
    resolveWith d fuel = resolve d := by
  induction fuel, enough using Nat.le_induction with
  | base => rfl
  | succ fuel enough ih => exact (resolveWith_succ enough).trans ih

/-- A description that has no result has a fault. -/
theorem exists_fault_of_not_ok {d : Device} (h : ∀ r, resolve d ≠ .ok r) :
    ∃ fault, resolve d = .error fault := by
  cases result : resolve d with
  | error fault => exact ⟨fault, rfl⟩
  | ok r => exact absurd result (h r)

/-- A cycle that is reported is a circle of references. -/
theorem circle_of_resolve {d : Device} {kind : ItemKind} {chain : List String}
    (fault : resolve d = .error (.cycle kind chain)) : Circle d kind chain := by
  rcases bind_eq_error.mp fault with fault | ⟨_, -, fault⟩
  · have ready := ready_fresh (Nat.lt_succ_self (nodeCount d))
    exact (orderly_resolveAll d _).circle trivial .fresh ready kind chain fault
  · cases fault

/-- **The resolution of every description settles.** -/
theorem resolve_settles (d : Device) : Settles d where
  fuel _ := resolveWith_eq_resolve
  fieldFuel s _ := resolveFields_steady s
  nodeFault _ circle := exists_fault_of_not_ok fun _ h => Refers.not_cyclic h circle
  fieldFault _ circle := exists_fault_of_not_ok fun _ h => FieldRefers.not_cyclic h circle
  circle _ _ fault :=
    have circle := circle_of_resolve fault
    ⟨circle, circle.ends⟩

/-! ### Two peripherals that derive from each other -/

/-- A peripheral of which nothing but its name and its reference is said. -/
def barePeripheral (name target : String) : Peripheral where
  name
  derivedFrom := some target
  version := none
  description := none
  groupName := none
  prependToName := none
  appendToName := none
  baseAddress := none
  properties := .empty
  dimension := none
  addressBlocks := []
  interrupts := []
  children := []

/-- Two peripherals that derive from each other. -/
def ring : Device where
  name := "D"
  vendor := none
  version := none
  description := none
  addressUnitBits := none
  width := none
  properties := .empty
  peripherals := [barePeripheral "A" "B", barePeripheral "B" "A"]

example : TransGen (Refers ring) ⟨0, []⟩ ⟨0, []⟩ :=
  .tail (.single (.peripheral rfl rfl rfl)) (.peripheral (i := 1) rfl rfl rfl)

example : resolve ring = .error (.cycle .peripheral ["A", "B", "A"]) := by rfl

end ChipMap.Inheritance
