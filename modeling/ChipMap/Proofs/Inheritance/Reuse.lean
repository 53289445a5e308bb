import ChipMap.Proofs.Inheritance.Complete

/-!
# A resolver may be used again

A resolver remembers what it has resolved, also on the way to a failure, and it refuses a node that
is under way.  Neither shows: **each of several calls on one resolver returns what it returns on a
fresh one**, be it a peripheral or a fault, and no node stays under way (`resolveInTurn_fresh`).

## Main definitions

* `resolveInTurn` — calls for peripherals on one resolver, one after another.
* `Awaited` — nodes under way that wait for a value.
* `Repeats` — computations that return the same on all resolvers with the same nodes under way.

### What is load-bearing

A node that is remembered is handed out where another resolver would begin to resolve it, and that
one might find it under way.  It does not.  All nodes under way wait for the one that is asked for,
so none of them has an answer of the direct resolution where this one has its first
(`Awaited.free`), and a search that asks for nothing unanswered succeeds (`Completes`).  A node
without an answer is not remembered, so there both resolvers do the same.

The fuel has to be enough for two things at once: for the nodes that get under way, and for the
depth at which every node that has an answer has it (`Suffices`).  The latter is some number, as
there are finitely many nodes, and more fuel changes nothing; so calls with the usual fuel are
compared with calls that have as much as is needed.
-/

namespace ChipMap.Inheritance

open Description

/-- **Calls for peripherals on one resolver**, by their numbers and whether they fail or not: what
each of them returns, with the resolver that it leaves. -/
def resolveInTurn (d : Device) :
    List Nat → Resolver → List (Except ReferenceFault Peripheral × Resolver)
  | [], _ => []
  | i :: rest, s =>
    let outcome := (resolvePeripheral d i).runWith s
    outcome :: resolveInTurn d rest outcome.2

/-! ### A depth that is enough -/

theorem Answered.isAt {d : Device} {n : Nat} {p : Place} (h : Answered d n p) :
    ∃ kind path, IsAt d p kind path := by
  cases h with
  | peripheral found =>
      obtain ⟨q, there, -⟩ := (direct_closed d n).peripheral found
      exact ⟨_, _, .peripheral there⟩
  | child chain found =>
      obtain ⟨item, there, -⟩ := (direct_closed d n).child found
      exact ⟨_, _, chain.child_isAt there⟩

/-- A depth at which every node has its answer, if it has one at all.  Which depth that is does not
matter. -/
def Suffices (d : Device) (depth : Nat) : Prop := ∀ p n, Answered d n p → Answered d depth p

/-- **Some depth suffices**, as there are finitely many nodes. -/
theorem exists_suffices (d : Device) : ∃ depth, Suffices d depth := by
  have among (places : List Place) :
      ∃ depth, ∀ p ∈ places, ∀ n, Answered d n p → Answered d depth p := by
    induction places with
    | nil => exact ⟨0, fun p hp => nomatch hp⟩
    | cons first rest ih =>
        obtain ⟨depth, enough⟩ := ih
        by_cases ever : ∃ n, Answered d n first
        · obtain ⟨n, answered⟩ := ever
          refine ⟨max n depth, fun p hp k hk => ?_⟩
          rcases List.mem_cons.mp hp with rfl | hp
          · exact answered.mono (Nat.le_max_left n depth)
          · exact (enough p hp k hk).mono (Nat.le_max_right n depth)
        · refine ⟨depth, fun p hp k hk => ?_⟩
          rcases List.mem_cons.mp hp with rfl | hp
          · exact absurd ⟨k, hk⟩ ever
          · exact enough p hp k hk
  obtain ⟨depth, enough⟩ := among (placesFrom 0 d.peripherals)
  refine ⟨depth, fun p n answered => enough p ?_ n answered⟩
  obtain ⟨kind, path, at_⟩ := answered.isAt
  exact at_.mem_places.1

/-! ### Nodes that wait -/

section Waiting

variable {d : Device} {underway : List Underway} {α β : Type}

/-- **All nodes under way wait for a value**: where one of them has an answer, the value is there at
less depth. -/
def Awaited (d : Device) (underway : List Underway) (c' : Nat → Except ReferenceFault α) : Prop :=
  ∀ u ∈ underway, ∀ n, Answered d (n + 1) u.place → ∃ a, c' n = .ok a

/-- Who waits for a sequence waits for its first computation. -/
theorem Awaited.first {c' : Nat → Except ReferenceFault α} {f' : α → Nat → Except ReferenceFault β}
    (h : Awaited d underway fun n => c' n >>= fun a => f' a n) : Awaited d underway c' := by
  intro u hu n answered
  obtain ⟨b, hb⟩ := h u hu n answered
  obtain ⟨a, ha, -⟩ := bind_eq_ok.mp hb
  exact ⟨a, ha⟩

/-- Who waits for a sequence waits for the rest of it, behind the value of the first
computation. -/
theorem Awaited.rest {c' : Nat → Except ReferenceFault α} {f' : α → Nat → Except ReferenceFault β}
    (h : Awaited d underway fun n => c' n >>= fun a => f' a n)
    (mono : ∀ {n k a}, n ≤ k → c' n = .ok a → c' k = .ok a) {k : Nat} {a : α}
    (value : c' k = .ok a) : Awaited d underway (f' a) := by
  intro u hu n answered
  obtain ⟨b, hb⟩ := h u hu n answered
  obtain ⟨a', ha, hb⟩ := bind_eq_ok.mp hb
  have left := mono (Nat.le_max_left n k) ha
  have right := mono (Nat.le_max_right n k) value
  obtain rfl := Except.ok.inj (left.symm.trans right)
  exact ⟨b, hb⟩

/-- **No node that waits for a value has an answer** where the value is there first. -/
theorem Awaited.free {s : Resolver} {c' : Nat → Except ReferenceFault α} {k : Nat}
    (h : Awaited d s.underway c') (coherent : s.Coherent d) (before : ∀ a, c' k ≠ .ok a) :
    Free d (k + 1) s where
  coherent := coherent
  unanswered u hu answered := by
    obtain ⟨a, ha⟩ := h u hu k answered
    exact before a ha

end Waiting

/-- **A resolver with fuel to spare**: the nodes under way are nodes of the description, each of
them once, and there is fuel for the others and for `depth` more. -/
structure Spared (d : Device) (depth fuel : Nat) (s : Resolver) : Prop where
  coherent : s.Coherent d
  taken : ∀ p ∈ s.underway.map (·.place), ∃ kind path, IsAt d p kind path
  nodup : (s.underway.map (·.place)).Nodup
  fuel : depth + nodeCount d < fuel + s.underway.length

namespace Spared

variable {d : Device} {depth fuel : Nat} {s : Resolver}

theorem depth_lt (h : Spared d depth fuel s) : depth < fuel := by
  have spare := h.fuel
  have nodes := length_le_nodeCount h.nodup h.taken
  rw [List.length_map] at nodes
  omega

theorem of_underway {s' : Resolver} (h : Spared d depth fuel s) (coherent : s'.Coherent d)
    (same : s'.underway = s.underway) : Spared d depth fuel s' where
  coherent := coherent
  taken := same ▸ h.taken
  nodup := same ▸ h.nodup
  fuel := same ▸ h.fuel

theorem push (h : Spared d depth (fuel + 1) s) {kind : ItemKind} {place : Place} {path : String}
    (at_ : IsAt d place kind path) (idle : ¬(s.underway.any fun u => u.place == place) = true) :
    Spared d depth fuel { s with underway := ⟨place, path⟩ :: s.underway } where
  coherent := h.coherent.of_memory rfl rfl
  taken := by
    intro p hp
    rcases List.mem_cons.mp hp with rfl | hp
    · exact ⟨kind, path, at_⟩
    · exact h.taken p hp
  nodup := by
    refine List.nodup_cons.mpr ⟨fun again => idle ?_, h.nodup⟩
    obtain ⟨u, hu, same⟩ := List.mem_map.mp again
    exact List.any_eq_true.mpr ⟨u, hu, by simpa using same⟩
  fuel := by
    have spare := h.fuel
    rw [List.length_cons]
    omega

end Spared

/-! ### Computations that repeat -/

/-- **A computation that repeats**: it returns the same on all resolvers with the same nodes under
way when these wait for its value, and it leaves them under way.  Values and faults are compared
alike. -/
structure Repeats (d : Device) (depth fuel : Nat) {α : Type} (P : Prop) (c : Resolving α)
    (c' : Nat → Except ReferenceFault α) : Prop where
  remembers : Remembers d P c c'
  underway : ∀ s, (c.runWith s).2.underway = s.underway
  same : P → ∀ s s', Spared d depth fuel s → s'.Coherent d → s'.underway = s.underway →
    Awaited d s.underway c' → (c.runWith s').1 = (c.runWith s).1

namespace Repeats

variable {d : Device} {depth fuel : Nat} {α β : Type} {P : Prop}

theorem pure (a : α) : Repeats d depth fuel P (Pure.pure a) fun _ => .ok a where
  remembers := .pure a
  underway _ := rfl
  same _ _ _ _ _ _ _ := rfl

/-- A fault is the same whatever is remembered. -/
theorem of_throw {e : ReferenceFault} {c' : Nat → Except ReferenceFault α}
    (remembers : Remembers d P (MonadExcept.throw e : Resolving α) c') :
    Repeats d depth fuel P (MonadExcept.throw e) c' where
  remembers := remembers
  underway _ := rfl
  same _ _ _ _ _ _ _ := rfl

theorem weaken {Q : Prop} {c : Resolving α} {c' : Nat → Except ReferenceFault α} (q : Q → P)
    (h : Repeats d depth fuel P c c') : Repeats d depth fuel Q c c' where
  remembers := h.remembers.weaken q
  underway := h.underway
  same p := h.same (q p)

theorem bind {c : Resolving α} {c' : Nat → Except ReferenceFault α} {f : α → Resolving β}
    {f' : α → Nat → Except ReferenceFault β} (hc : Repeats d depth fuel P c c')
    (hf : ∀ a, Repeats d depth fuel (P ∧ ∃ n, c' n = .ok a) (f a) (f' a)) :
    Repeats d depth fuel P (c >>= f) fun n => c' n >>= fun a => f' a n where
  remembers := hc.remembers.bind fun a => (hf a).remembers
  underway s := by
    have first := hc.underway s
    rw [Resolving.runWith_bind]
    rcases run : c.runWith s with ⟨e | a, t⟩
    · rw [run] at first
      exact first
    · rw [run] at first
      exact ((hf a).underway t).trans first
  same p s s' spared coherent' equal awaited := by
    have first := hc.same p s s' spared coherent' equal awaited.first
    have value := hc.remembers.value p s spared.coherent
    have after := hc.remembers.coherent p s spared.coherent
    have after' := hc.remembers.coherent p s' coherent'
    have stack := hc.underway s
    have stack' := hc.underway s'
    rw [Resolving.runWith_bind, Resolving.runWith_bind]
    rcases run : c.runWith s with ⟨e | a, t⟩
    · rcases run' : c.runWith s' with ⟨e' | a', t'⟩
      · rw [run, run'] at first
        exact congrArg Except.error (Except.error.inj first)
      · rw [run, run'] at first
        cases first
    · rcases run' : c.runWith s' with ⟨e' | a', t'⟩
      · rw [run, run'] at first
        cases first
      · rw [run] at value after stack
        rw [run'] at after' stack'
        rw [run, run'] at first
        obtain rfl := Except.ok.inj first
        -- Both runs have one value here, so the second steps are those of one computation.
        obtain ⟨k, hk⟩ := value a' rfl
        refine (hf a').same ⟨p, k, hk⟩ t t' (spared.of_underway after stack) after'
          (stack'.trans (equal.trans stack.symm)) ?_
        rw [stack]
        exact awaited.rest hc.remembers.mono hk

theorem underway_during {kind : ItemKind} {place : Place} {path : String} {c : Resolving α}
    (h : ∀ s, (c.runWith s).2.underway = s.underway) (s : Resolver) :
    ((Resolving.during kind place path c).runWith s).2.underway = s.underway := by
  rw [Resolving.runWith_during]
  split
  · rfl
  · exact congrArg List.tail (h _)

/-- **A node under way on both resolvers**: they report the same cycle, or go on alike. -/
theorem same_during {kind : ItemKind} {place : Place} {path : String} {c : Resolving α}
    {c' : Nat → Except ReferenceFault α} (h : Repeats d depth fuel P c fun n => c' (n + 1))
    (at_ : P → IsAt d place kind path)
    (mono : ∀ {n k a}, n ≤ k → c' n = .ok a → c' k = .ok a)
    (answers : P → ∀ n, Answered d n place ↔ ∃ a, c' n = .ok a) (p : P) {s s' : Resolver}
    (spared : Spared d depth (fuel + 1) s) (coherent' : s'.Coherent d)
    (equal : s'.underway = s.underway) (awaited : Awaited d s.underway c') :
    ((Resolving.during kind place path c).runWith s').1 =
      ((Resolving.during kind place path c).runWith s).1 := by
  rw [Resolving.runWith_during, Resolving.runWith_during, Resolver.chainSince, Resolver.chainSince,
    equal]
  split
  · rfl
  · next idle =>
    refine h.same p _ _ (spared.push (at_ p) idle) (coherent'.of_memory rfl rfl) rfl ?_
    intro u hu n answered
    rcases List.mem_cons.mp hu with rfl | hu
    · exact (answers p (n + 1)).mp answered
    · obtain ⟨a, ha⟩ := awaited u hu n answered
      exact ⟨a, mono (Nat.le_succ n) ha⟩

/-- **A node is resolved or handed out**: where it has an answer both resolvers return it, and where
it has none neither of them remembers it. -/
theorem once (suffices_ : Suffices d depth) {cell : Cell α} {kind : ItemKind} {place : Place}
    {path : String} {c : Resolving α} {c' : Nat → Except ReferenceFault α}
    (holds : cell.Holds d P c') (h : Repeats d depth fuel P c fun n => c' (n + 1))
    (completes : Completes d (fuel + 1) P (.once cell (.during kind place path c)) c')
    (at_ : P → IsAt d place kind path) (never : ∀ a, c' 0 ≠ .ok a)
    (answers : P → ∀ n, Answered d n place ↔ ∃ a, c' n = .ok a) :
    Repeats d depth (fuel + 1) P (.once cell (.during kind place path c)) c' where
  remembers := completes.remembers
  underway s := by
    have stack : ((Resolving.during kind place path c).runWith s).2.underway = s.underway :=
      underway_during h.underway s
    rw [Resolving.runWith_once]
    cases cell.known? s with
    | some done => rfl
    | none =>
        rcases run : (Resolving.during kind place path c).runWith s with ⟨e | a, t⟩
        · rwa [run] at stack
        · rw [run] at stack
          exact (cell.underway a t).trans stack
  same p s s' spared coherent' equal awaited := by
    have mono : ∀ {n k a}, n ≤ k → c' n = .ok a → c' k = .ok a := completes.remembers.mono
    by_cases ever : ∃ n a, c' n = .ok a
    · -- The node has a value at some depth, and both runs find it there.
      obtain ⟨n, a, value⟩ := ever
      obtain ⟨k, -, first, before⟩ := exists_first mono never value
      have bound : k < depth := by
        refine Nat.lt_of_not_le fun late => ?_
        obtain ⟨b, hb⟩ := (answers p depth).mp (suffices_ place n ((answers p n).mpr ⟨a, value⟩))
        exact before b (mono late hb)
      have enough : k + 1 ≤ fuel + 1 := by
        have := spared.depth_lt
        omega
      have found (t : Resolver) (coherent : t.Coherent d) (stack : t.underway = s.underway) :
          ((Resolving.once cell (.during kind place path c)).runWith t).1 = .ok a := by
        obtain ⟨t', run, -⟩ :=
          completes.finds p enough first ((stack ▸ awaited).free coherent before)
        rw [run]
      rw [found s spared.coherent rfl, found s' coherent' equal]
    · -- A value that the node never has is not remembered, so both runs compute.
      have unknown (t : Resolver) (coherent : t.Coherent d) :
          ((Resolving.once cell (.during kind place path c)).runWith t).1 =
            ((Resolving.during kind place path c).runWith t).1 := by
        rw [Resolving.runWith_once]
        cases known : cell.known? t with
        | some done =>
            obtain ⟨n, answer⟩ := holds.answer p coherent known
            exact absurd ⟨n, done, answer⟩ ever
        | none => rcases (Resolving.during kind place path c).runWith t with ⟨e | a, u⟩ <;> rfl
      rw [unknown s spared.coherent, unknown s' coherent']
      exact h.same_during at_ mono answers p spared coherent' equal awaited

end Repeats

/-- The steps respect `Repeats`, so every computation that is built of them does. -/
def repeats (d : Device) (depth fuel : Nat) : Agreement Resolving Nat where
  rel := Repeats d depth fuel
  pure _ := .pure
  throw _ e := .of_throw (.throw e)
  bind := .bind
  weaken := .weaken

/-! ### The resolver -/

/-- **The resolver repeats**, at any fuel. -/
theorem agree_repeats {d : Device} {depth : Nat} (suffices_ : Suffices d depth) (fuel : Nat) :
    (repeats d depth fuel).Agree d (Chain d) (solvers d fuel) (direct d) := by
  induction fuel with
  | zero =>
      have agree := agree_solvers d 0
      refine ⟨fun i => ?_, fun levels i => ?_, agree.outer, agree.ofPeripheral⟩
      · exact .of_throw (agree.peripheral i)
      · exact .of_throw (agree.child levels i)
  | succ fuel ih =>
      have agree := agree_solvers d (fuel + 1)
      have completes := agree_completes d (fuel + 1)
      refine ⟨fun i => ?_, fun levels i => ?_, agree.outer, agree.ofPeripheral⟩
      · have remembers := agree.peripheral i
        have completes := completes.peripheral i
        rw [solvers] at remembers completes ⊢
        dsimp only at remembers completes ⊢
        cases found : d.peripherals[i]? with
        | none =>
            rw [found] at remembers
            exact .of_throw remembers
        | some p =>
            rw [found] at completes
            have body := Agreement.rel_resolvePeripheralBody (P := True) ih found
            refine .once suffices_ (.peripheral i) ?_ completes (fun _ => .peripheral found)
              (fun _ h => by cases h) fun _ n => answered_peripheral
            simp only [direct, found]
            exact body
      · have remembers := agree.child levels i
        have completes := completes.child levels i
        rw [solvers] at remembers completes ⊢
        cases levels with
        | nil => exact .of_throw remembers
        | cons level outer =>
            dsimp only at remembers completes ⊢
            cases found : level.own[i]? with
            | none =>
                rw [found] at remembers
                exact .of_throw remembers
            | some item =>
                rw [found] at completes
                have body := Agreement.rel_resolveItem (P := Chain d (level :: outer)) ih id
                  (level.place.child i) (childPath level.path item.name) item
                  (by
                    rintro own children base rfl chain ⟨n, hbase⟩
                    exact .ofCluster chain found hbase)
                refine .once suffices_ (.item i) ?_ completes
                  (fun chain => chain.child_isAt found) (fun _ h => by cases h)
                  fun chain n => answered_child chain
                simp only [direct, found]
                exact body

/-! ### Several calls -/

/-- A coherent resolver with nothing under way is ready when the fuel is above the number of
nodes. -/
theorem Resolver.Coherent.ready {d : Device} {fuel : Nat} {s : Resolver} (coherent : s.Coherent d)
    (idle : s.underway = []) (enough : nodeCount d < fuel) : Ready d fuel none s where
  coherent := coherent
  stacked := idle ▸ .nil
  latest := by rw [idle]; rfl
  fuel := Nat.lt_add_right _ enough

/-- More fuel than there are nodes changes nothing, whatever is remembered.  This is `Orderly` for a
single call. -/
theorem solvers_peripheral_runWith {d : Device} {i fuel : Nat} {s : Resolver}
    (coherent : s.Coherent d) (idle : s.underway = []) (enough : nodeCount d < fuel) :
    ((solvers d fuel).peripheral i).runWith s = (resolvePeripheral d i).runWith s := by
  rcases Nat.lt_or_ge i d.peripherals.length with inside | outside
  · induction fuel, enough using Nat.le_induction with
    | base => rfl
    | succ fuel enough ih =>
        have orderly := (orderly_solvers d fuel).peripheral (q := none) (P := True) (i := i)
          (fun _ => inside) fun _ w hw => nomatch hw
        exact (orderly.steady trivial s (coherent.ready idle enough)).trans ih
  · obtain ⟨fuel, rfl⟩ := Nat.exists_eq_succ_of_ne_zero (Nat.ne_zero_of_lt enough)
    have missing := List.getElem?_eq_none_iff.mpr outside
    rw [resolvePeripheral, solvers, solvers]
    dsimp only
    rw [missing]

/-- **A call repeats**: with nothing under way it returns what it returns on a fresh resolver, and
nothing stays under way. -/
theorem resolvePeripheral_repeats {d : Device} (i : Nat) {s : Resolver} (coherent : s.Coherent d)
    (idle : s.underway = []) :
    ((resolvePeripheral d i).runWith s).1 = ((resolvePeripheral d i).runWith .fresh).1 ∧
      ((resolvePeripheral d i).runWith s).2.underway = [] := by
  obtain ⟨depth, suffices_⟩ := exists_suffices d
  have repeats := (agree_repeats suffices_ (depth + nodeCount d + 1)).peripheral i
  have enough : nodeCount d < depth + nodeCount d + 1 := by omega
  have spared : Spared d depth (depth + nodeCount d + 1) .fresh :=
    ⟨Resolver.coherent_fresh d, (fun p hp => nomatch hp), .nil, Nat.lt_succ_self _⟩
  have same := repeats.same trivial .fresh s spared coherent idle fun u hu => nomatch hu
  have left := repeats.underway s
  rw [solvers_peripheral_runWith coherent idle enough] at same left
  rw [solvers_peripheral_runWith (Resolver.coherent_fresh d) rfl enough] at same
  exact ⟨same, left.trans idle⟩

/-- **Each of several calls on one resolver returns what it returns on a fresh one**, a peripheral
or a fault, and nothing stays under way.  The induction is on the calls, for every coherent resolver
with nothing under way. -/
theorem resolveInTurn_fresh (d : Device) (numbers : List Nat) :
    List.Forall₂ (fun i outcome =>
        outcome.1 = ((resolvePeripheral d i).runWith .fresh).1 ∧ outcome.2.underway = [])
      numbers (resolveInTurn d numbers .fresh) := by
  have from_ (s : Resolver) (coherent : s.Coherent d) (idle : s.underway = []) :
      List.Forall₂ (fun i outcome =>
          outcome.1 = ((resolvePeripheral d i).runWith .fresh).1 ∧ outcome.2.underway = [])
        numbers (resolveInTurn d numbers s) := by
    induction numbers generalizing s with
    | nil => exact .nil
    | cons i rest ih =>
        have call := resolvePeripheral_repeats i coherent idle
        have coherent' := (resolvePeripheral_direct d i).coherent trivial s coherent
        exact .cons call (ih _ coherent' call.2)
  exact from_ .fresh (Resolver.coherent_fresh d) rfl

-- The failure of the first call shows in no later one.
example : (resolveInTurn ring [0, 1, 0] .fresh).map (·.1) =
    [.error (.cycle .peripheral ["A", "B", "A"]), .error (.cycle .peripheral ["B", "A", "B"]),
      .error (.cycle .peripheral ["A", "B", "A"])] := by rfl

end ChipMap.Inheritance
