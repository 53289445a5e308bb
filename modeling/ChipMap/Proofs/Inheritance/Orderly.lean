import ChipMap.Proofs.Inheritance.FieldCircle

/-!
# The resolver is orderly

Three things hold of every call of the resolver, whatever it has resolved before: **more fuel
changes nothing, the nodes under way stay as they were, and each cycle that is reported is a circle
of needs** (`Orderly`).  They hold as long as each node that is asked for is needed by the latest
one under way, which is what the steps are looked through for here.

### What is load-bearing

Whether a node is needed depends on where a search has failed before, so the steps are compared with
their direct reading on the way (`Orderly.bind`): what a first computation returned is an answer of
the direct resolution.  The fuel is above the number of nodes that are not under way (`Ready`), so
there is some left for every node that gets under way.

The three properties are proved together because they need each other.  A circle is read off the
nodes under way, which is possible only if failed and finished calls have left no node there, and
that more fuel changes nothing is what shows that the fault of an exhausted resolver is never seen.
-/

namespace ChipMap.Inheritance

open Description

/-! ### Orderly computations -/

/-- **A resolver that is ready for a node**: the latest node under way is `q`, if there is one, and
there is fuel for every node that is not under way. -/
structure Ready (d : Device) (fuel : Nat) (q : Option Place) (s : Resolver) : Prop where
  coherent : s.Coherent d
  stacked : Stacked d s.underway
  latest : s.underway.head?.map (·.place) = q
  fuel : nodeCount d < fuel + s.underway.length

/-- Without fuel no resolver is ready: more nodes would have to be under way than there are. -/
theorem Ready.not_zero {d : Device} {q : Option Place} {s : Resolver} : ¬Ready d 0 q s := by
  intro ready
  have := ready.fuel
  have := ready.stacked.length_le
  omega

theorem Ready.of_underway {d : Device} {fuel : Nat} {q : Option Place} {s s' : Resolver}
    (h : Ready d fuel q s) (coherent : s'.Coherent d) (same : s'.underway = s.underway) :
    Ready d fuel q s' where
  coherent := coherent
  stacked := same ▸ h.stacked
  latest := same ▸ h.latest
  fuel := same ▸ h.fuel

/-- **An orderly computation for the node `q`**, and the same one with more fuel, where a condition
holds.  The two computations are built in the same way from solvers of different fuel. -/
structure Orderly (d : Device) (fuel : Nat) (q : Option Place) {α : Type} (P : Prop)
    (c c' : Resolving α) : Prop where
  /-- More fuel changes nothing. -/
  steady : P → ∀ s, Ready d fuel q s → c'.runWith s = c.runWith s
  /-- The nodes under way stay as they were. -/
  underway : P → ∀ s, Ready d fuel q s → (c.runWith s).2.underway = s.underway
  /-- A cycle that is reported is a circle. -/
  circle : P → ∀ s, Ready d fuel q s → ∀ kind chain,
    (c.runWith s).1 = .error (.cycle kind chain) → Circle d kind chain

namespace Orderly

variable {d : Device} {fuel : Nat} {q : Option Place} {α β : Type} {P : Prop}

theorem pure (a : α) : Orderly d fuel q P (Pure.pure a : Resolving α) (Pure.pure a) where
  steady _ _ _ := rfl
  underway _ _ _ := rfl
  circle _ _ _ _ _ h := by cases h

/-- A fault is no cycle, or the cycle is a circle.  Only `during` reports cycles, so all other
faults are of the first kind. -/
theorem throw {e : ReferenceFault}
    (h : P → ∀ kind chain, e = .cycle kind chain → Circle d kind chain) :
    Orderly d fuel q P (MonadExcept.throw e : Resolving α) (MonadExcept.throw e) where
  steady _ _ _ := rfl
  underway _ _ _ := rfl
  circle p _ _ kind chain fault := h p kind chain (Except.error.inj fault)

theorem ofExcept {e : Except ReferenceFault α}
    (h : P → ∀ kind chain, e = .error (.cycle kind chain) → Circle d kind chain) :
    Orderly d fuel q P (Inheritance.ofExcept e : Resolving α) (Inheritance.ofExcept e) := by
  cases e with
  | error e => exact throw fun p kind chain same => h p kind chain (congrArg Except.error same)
  | ok a => exact pure a

/-- **One computation after another**: the second one may use what the direct reading of the
first one returns. -/
theorem bind {c c' : Resolving α} {direct : Nat → Except ReferenceFault α}
    {f f' : α → Resolving β} (reading : Remembers d P c direct) (hc : Orderly d fuel q P c c')
    (hf : ∀ a, Orderly d fuel q (P ∧ ∃ n, direct n = .ok a) (f a) (f' a)) :
    Orderly d fuel q P (c >>= f) (c' >>= f') := by
  -- What the first step leaves is ready for the second one.
  have after (p : P) {s : Resolver} (ready : Ready d fuel q s) {a : α} {s' : Resolver}
      (run : c.runWith s = (.ok a, s')) :
      (P ∧ ∃ n, direct n = .ok a) ∧ Ready d fuel q s' ∧ s'.underway = s.underway := by
    have coherent := reading.coherent p s ready.coherent
    have value := reading.value p s ready.coherent a
    have same := hc.underway p s ready
    rw [run] at coherent value same
    exact ⟨⟨p, value rfl⟩, ready.of_underway coherent same, same⟩
  refine ⟨fun p s ready => ?_, fun p s ready => ?_, fun p s ready kind chain fault => ?_⟩
  · rw [Resolving.runWith_bind, Resolving.runWith_bind, hc.steady p s ready]
    rcases run : c.runWith s with ⟨e | a, s'⟩
    · rfl
    · obtain ⟨p', ready', -⟩ := after p ready run
      exact (hf a).steady p' s' ready'
  · rw [Resolving.runWith_bind]
    have same := hc.underway p s ready
    rcases run : c.runWith s with ⟨e | a, s'⟩
    · rw [run] at same
      exact same
    · obtain ⟨p', ready', same'⟩ := after p ready run
      exact ((hf a).underway p' s' ready').trans same'
  · rw [Resolving.runWith_bind] at fault
    have earlier := hc.circle p s ready kind chain
    rcases run : c.runWith s with ⟨e | a, s'⟩
    · rw [run] at fault earlier
      exact earlier (congrArg Except.error (Except.error.inj fault))
    · rw [run] at fault
      obtain ⟨p', ready', -⟩ := after p ready run
      exact (hf a).circle p' s' ready' kind chain fault

theorem map {c c' : Resolving α} {direct : Nat → Except ReferenceFault α} (g : α → β)
    (reading : Remembers d P c direct) (hc : Orderly d fuel q P c c') :
    Orderly d fuel q P (g <$> c) (g <$> c') := by
  rw [← bind_pure_comp, ← bind_pure_comp]
  exact bind reading hc fun a => pure (g a)

/-- One computation after another, over a list.  The condition stays the same along the list. -/
theorem mapM {γ : Type} {f f' : γ → Resolving α} {direct : γ → Nat → Except ReferenceFault α}
    {items : List γ} (reading : ∀ x ∈ items, Remembers d P (f x) (direct x))
    (each : ∀ x ∈ items, Orderly d fuel q P (f x) (f' x)) :
    Orderly d fuel q P (items.mapM f) (items.mapM f') := by
  induction items generalizing P with
  | nil => exact pure []
  | cons x rest ih =>
      simp only [List.mapM_cons]
      refine bind (reading x List.mem_cons_self) (each x List.mem_cons_self) fun a => ?_
      have readingRest : ∀ y ∈ rest,
          Remembers d (P ∧ ∃ n, direct x n = .ok a) (f y) (direct y) := fun y hy =>
        (reading y (List.mem_cons_of_mem x hy)).weaken And.left
      refine bind (Agreement.rel_mapM (S := remembers d) f (fun y n => direct y n) rest readingRest)
        (ih readingRest fun y hy => ?_) fun as => pure (a :: as)
      have here := each y (List.mem_cons_of_mem x hy)
      exact ⟨fun p => here.steady p.1, fun p => here.underway p.1, fun p => here.circle p.1⟩

end Orderly

/-! ### The computations that touch the memory -/

section Memory

variable {d : Device} {fuel : Nat} {q : Option Place} {α : Type} {P : Prop}

/-- **A node gets under way**: it is needed, so it closes a circle if it is under way already. -/
theorem Orderly.during {kind : ItemKind} {place : Place} {path : String} {c c' : Resolving α}
    (at_ : P → IsAt d place kind path) (needed : P → ∀ w ∈ q, Needs d w place)
    (h : Orderly d fuel (some place) P c c') :
    Orderly d (fuel + 1) q P (.during kind place path c) (.during kind place path c') := by
  -- One more node is under way, so one unit of fuel less is enough.
  have pushed (p : P) {s : Resolver} (ready : Ready d (fuel + 1) q s)
      (fresh : ¬(s.underway.any fun u => u.place == place) = true) :
      Ready d fuel (some place) { s with underway := ⟨place, path⟩ :: s.underway } := by
    refine ⟨ready.coherent.of_memory rfl rfl, ?_, rfl, ?_⟩
    · refine .cons (at_ p) ?_ ?_ ready.stacked
      · simpa using fresh
      · intro w hw
        refine needed p w.place ?_
        rw [← ready.latest, Option.mem_def, hw]
        rfl
    · have := ready.fuel
      simp only [List.length_cons]
      omega
  refine ⟨fun p s ready => ?_, fun p s ready => ?_, fun p s ready kind' chain fault => ?_⟩
  · rw [Resolving.runWith_during, Resolving.runWith_during]
    split
    · rfl
    · next fresh => rw [h.steady p _ (pushed p ready fresh)]
  · rw [Resolving.runWith_during]
    split
    · rfl
    · next fresh =>
      have same := h.underway p _ (pushed p ready fresh)
      exact congrArg List.tail same
  · rw [Resolving.runWith_during] at fault
    split at fault
    · next again =>
      obtain ⟨rfl, rfl⟩ := ReferenceFault.cycle.inj (Except.error.inj fault)
      refine ready.stacked.circle (at_ p) (fun w hw => needed p w.place ?_) again
      rw [← ready.latest, Option.mem_def, hw]
      rfl
    · next fresh => exact h.circle p _ (pushed p ready fresh) kind' chain fault

/-- **What is handed out, or resolved by an orderly computation**, is so in an orderly way: with
more fuel the same is known, and remembering a node puts none under way. -/
theorem Orderly.once {cell : Cell α} {c c' : Resolving α} (h : Orderly d fuel q P c c') :
    Orderly d fuel q P (.once cell c) (.once cell c') := by
  have run (s : Resolver) : (∃ a, (Resolving.once cell c).runWith s = (.ok a, s)) ∨
      ((Resolving.once cell c).runWith s).1 = (c.runWith s).1 ∧
        ((Resolving.once cell c).runWith s).2.underway = (c.runWith s).2.underway := by
    rw [Resolving.runWith_once]
    cases cell.known? s with
    | some done => exact .inl ⟨done, rfl⟩
    | none =>
        rcases c.runWith s with ⟨e | a, s'⟩
        · exact .inr ⟨rfl, rfl⟩
        · exact .inr ⟨rfl, cell.underway a s'⟩
  refine ⟨fun p s ready => ?_, fun p s ready => ?_, fun p s ready kind chain fault => ?_⟩
  · rw [Resolving.runWith_once, Resolving.runWith_once, h.steady p s ready]
  · rcases run s with ⟨a, known⟩ | ⟨-, same⟩
    · rw [known]
    · exact same.trans (h.underway p s ready)
  · rcases run s with ⟨a, known⟩ | ⟨same, -⟩
    · rw [known] at fault
      cases fault
    · exact h.circle p s ready kind chain (same.symm.trans fault)

end Memory

end ChipMap.Inheritance
