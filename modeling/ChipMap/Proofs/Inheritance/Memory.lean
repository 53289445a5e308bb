import ChipMap.Proofs.Inheritance.Direct

/-!
# What the resolver remembers

A resolver hands out a node that it has resolved before instead of resolving it again.  This is
sound because everything it remembers is an answer of the direct resolution (`Resolver.Coherent`): a
call on a coherent resolver leaves it coherent, whether the call fails or not, and a value that it
returns is an answer of the direct resolution (`resolvePeripheral_direct`).

### What is load-bearing

`remembers` is the relation of the steps with their direct reading under which this is proved; the
steps themselves come from `Agreement`, so only the two computations that touch the memory are
looked at here: `during` and `once`.

Peripherals and other nodes are remembered in different tables, but in the same way.  What is asked
of such a table is said of a cell (`Cell.Holds`): what is known there is an answer of the reading it
belongs to, and an answer may be put there.  For a register or cluster that needs the uniqueness of
levels, for a peripheral it does not.

Faults are not compared.  A resolver may report a cycle where the direct resolution has an answer,
and that this does not happen to those that have one is shown elsewhere.
-/

namespace ChipMap.Inheritance

open Description

namespace Resolving

variable {α β : Type}

theorem runWith_pure (a : α) (s : Resolver) :
    (Pure.pure a : Resolving α).runWith s = (.ok a, s) := rfl

theorem runWith_bind (c : Resolving α) (f : α → Resolving β) (s : Resolver) :
    (c >>= f).runWith s =
      match c.runWith s with
      | (.ok a, s') => (f a).runWith s'
      | (.error e, s') => (.error e, s') := by
  simp only [runWith, ExceptT.run_bind, StateT.run_bind]
  rcases StateT.run (ExceptT.run c) s with ⟨e | a, s'⟩
  · rfl
  · rfl

theorem runWith_during (kind : ItemKind) (place : Place) (path : String)
    (body : Resolving α) (s : Resolver) :
    (during kind place path body).runWith s =
      if s.underway.any fun u => u.place == place then
        (.error (.cycle kind (s.chainSince place ++ [path])), s)
      else
        ((body.runWith { s with underway := ⟨place, path⟩ :: s.underway }).1,
          { (body.runWith { s with underway := ⟨place, path⟩ :: s.underway }).2 with
            underway := (body.runWith
              { s with underway := ⟨place, path⟩ :: s.underway }).2.underway.tail }) := rfl

theorem runWith_once (cell : Cell α) (body : Resolving α) (s : Resolver) :
    (once cell body).runWith s =
      match cell.known? s with
      | some done => (.ok done, s)
      | none =>
        match body.runWith s with
        | (.ok a, s') => (.ok a, cell.keep a s')
        | (.error e, s') => (.error e, s') := by
  rw [once, runWith_bind]
  change (match cell.known? s with | some done => _ | none => _ : Resolving α).runWith s = _
  cases cell.known? s with
  | some done => rfl
  | none =>
      dsimp only
      rw [runWith_bind]
      rcases body.runWith s with ⟨e | a, s'⟩ <;> rfl

end Resolving

/-- **Everything remembered is an answer of the direct resolution**, at the levels of its place.
What is under way is not part of this. -/
structure Resolver.Coherent (d : Device) (s : Resolver) : Prop where
  /-- A remembered peripheral. -/
  peripherals : ∀ {i q}, s.peripherals.lookup i = some q →
    ∃ n, (direct d n).peripheral i = .ok q
  /-- A remembered register or cluster. -/
  items : ∀ {place x}, s.items.lookup place = some x →
    ∃ level outer i n, Chain d (level :: outer) ∧ place = level.place.child i ∧
      (direct d n).child (level :: outer) i = .ok x

theorem Resolver.coherent_fresh (d : Device) : Resolver.fresh.Coherent d where
  peripherals h := by simp [Resolver.fresh] at h
  items h := by simp [Resolver.fresh] at h

theorem Resolver.Coherent.of_memory {d : Device} {s s' : Resolver} (h : s.Coherent d)
    (peripherals : s'.peripherals = s.peripherals) (items : s'.items = s.items) :
    s'.Coherent d where
  peripherals found := h.peripherals (peripherals ▸ found)
  items found := h.items (items ▸ found)

/-- **A computation agrees with its direct reading** when it keeps a resolver coherent and returns
only what the direct reading returns at some depth.  Coherence is kept by failing computations
too. -/
structure Remembers (d : Device) {α : Type} (P : Prop) (c : Resolving α)
    (c' : Nat → Except ReferenceFault α) : Prop where
  /-- More depth loses no value. -/
  mono : ∀ {n k a}, n ≤ k → c' n = .ok a → c' k = .ok a
  /-- The resolver stays coherent. -/
  coherent : P → ∀ s : Resolver, s.Coherent d → (c.runWith s).2.Coherent d
  /-- A value is one of the direct reading. -/
  value : P → ∀ s : Resolver, s.Coherent d → ∀ a, (c.runWith s).1 = .ok a →
    ∃ n, c' n = .ok a

namespace Remembers

variable {d : Device} {α β : Type} {P : Prop}

theorem pure (a : α) : Remembers d P (Pure.pure a) fun _ => .ok a where
  mono _ h := h
  coherent _ _ hs := hs
  value _ _ _ _ h := ⟨0, h⟩

theorem throw (e : ReferenceFault) :
    Remembers d P (MonadExcept.throw e : Resolving α) fun _ => .error e where
  mono _ h := h
  coherent _ _ hs := hs
  value _ _ _ _ h := ⟨0, h⟩

theorem bind {c : Resolving α} {c' : Nat → Except ReferenceFault α} {f : α → Resolving β}
    {f' : α → Nat → Except ReferenceFault β} (hc : Remembers d P c c')
    (hf : ∀ a, Remembers d (P ∧ ∃ n, c' n = .ok a) (f a) (f' a)) :
    Remembers d P (c >>= f) fun n => c' n >>= fun a => f' a n where
  mono {n k b} hnk hb := by
    obtain ⟨a, hn, hb⟩ := bind_eq_ok.mp hb
    exact bind_eq_ok.mpr ⟨a, hc.mono hnk hn, (hf a).mono hnk hb⟩
  coherent p s hs := by
    have coherent := hc.coherent p s hs
    have value := hc.value p s hs
    rw [Resolving.runWith_bind]
    rcases hrun : c.runWith s with ⟨e | a, s'⟩
    · rw [hrun] at coherent
      exact coherent
    · rw [hrun] at coherent value
      exact (hf a).coherent ⟨p, value a rfl⟩ s' coherent
  value p s hs b hb := by
    have coherent := hc.coherent p s hs
    have value := hc.value p s hs
    rw [Resolving.runWith_bind] at hb
    rcases hrun : c.runWith s with ⟨e | a, s'⟩
    · rw [hrun] at hb
      cases hb
    · rw [hrun] at coherent value hb
      obtain ⟨n, hn⟩ := value a rfl
      obtain ⟨k, hk⟩ := (hf a).value ⟨p, n, hn⟩ s' coherent b hb
      -- Each step has a depth of its own, and both answer at the greater one.
      exact ⟨max n k, bind_eq_ok.mpr ⟨a, hc.mono (Nat.le_max_left n k) hn,
        (hf a).mono (Nat.le_max_right n k) hk⟩⟩

theorem weaken {Q : Prop} {c : Resolving α} {c' : Nat → Except ReferenceFault α}
    (q : Q → P) (h : Remembers d P c c') : Remembers d Q c c' where
  mono := h.mono
  coherent p := h.coherent (q p)
  value p := h.value (q p)

end Remembers

/-- The steps respect `Remembers`, so every computation that is built of them does. -/
def remembers (d : Device) : Agreement Resolving Nat where
  rel := Remembers d
  pure _ := .pure
  throw _ := .throw
  bind := .bind
  weaken := .weaken

/-! ### The computations that touch the memory -/

section Memory

variable {d : Device} {α : Type} {P : Prop}

/-- That a node is under way is forgotten when its computation ends, and neither table is
touched. -/
theorem Remembers.during {c : Resolving α} {c' : Nat → Except ReferenceFault α}
    (h : Remembers d P c c') (kind : ItemKind) (place : Place) (path : String) :
    Remembers d P (.during kind place path c) c' where
  mono := h.mono
  coherent p s hs := by
    rw [Resolving.runWith_during]
    split
    · exact hs
    · have marked : Resolver.Coherent d { s with underway := ⟨place, path⟩ :: s.underway } :=
        hs.of_memory rfl rfl
      exact (h.coherent p _ marked).of_memory rfl rfl
  value p s hs a ha := by
    rw [Resolving.runWith_during] at ha
    split at ha
    · cases ha
    · have marked : Resolver.Coherent d { s with underway := ⟨place, path⟩ :: s.underway } :=
        hs.of_memory rfl rfl
      exact h.value p _ marked a ha

/-- A list of bindings looked up at the key of its head or behind it. -/
theorem lookup_cons_cases {κ β : Type} [BEq κ] [LawfulBEq κ] {a b : κ} {x y : β}
    {rest : List (κ × β)} (h : ((a, x) :: rest).lookup b = some y) :
    b = a ∧ y = x ∨ rest.lookup b = some y := by
  rw [List.lookup_cons] at h
  split at h
  · next hb => exact .inl ⟨eq_of_beq hb, (Option.some.inj h).symm⟩
  · exact .inr h

/-- **A cell holds answers of a direct reading**: what is known is such an answer, and such an
answer may be kept. -/
structure Cell.Holds (d : Device) (P : Prop) (cell : Cell α) (c' : Nat → Except ReferenceFault α) :
    Prop where
  answer : P → ∀ {s : Resolver}, s.Coherent d → ∀ {a}, cell.known? s = some a → ∃ n, c' n = .ok a
  keep : P → ∀ {s : Resolver}, s.Coherent d → ∀ {n a}, c' n = .ok a → (cell.keep a s).Coherent d

/-- The cell of a peripheral holds its answers. -/
theorem Cell.Holds.peripheral (i : Nat) :
    (Cell.peripheral i).Holds d P fun n => (direct d n).peripheral i where
  answer _ _ hs _ known := hs.peripherals known
  keep _ s hs n q value := by
    refine ⟨fun found => ?_, hs.items⟩
    rcases lookup_cons_cases found with ⟨rfl, rfl⟩ | earlier
    · exact ⟨n, value⟩
    · exact hs.peripherals earlier

/-- The cell of a register or a cluster holds its answers at the levels that the node is at: a place
has one chain of levels only. -/
theorem Cell.Holds.item {level : Level} {outer : List Level} (i : Nat) :
    (Cell.item (level.place.child i)).Holds d (Chain d (level :: outer)) fun n =>
      (direct d n).child (level :: outer) i where
  answer chain s hs x known := by
    obtain ⟨level', outer', j, n, chain', place, value⟩ := hs.items known
    obtain ⟨same, rfl⟩ := Place.child_inj.mp place
    obtain ⟨rfl, rfl⟩ := List.cons.inj (chain.unique chain' same)
    exact ⟨n, value⟩
  keep chain s hs n x value := by
    refine ⟨hs.peripherals, fun found => ?_⟩
    rcases lookup_cons_cases found with ⟨rfl, rfl⟩ | earlier
    · exact ⟨level, outer, i, n, chain, rfl, value⟩
    · exact hs.items earlier

/-- **A node is remembered as what its computation returned.** -/
theorem Remembers.once {cell : Cell α} {c : Resolving α} {c' : Nat → Except ReferenceFault α}
    (holds : cell.Holds d P c') (h : Remembers d P c c') : Remembers d P (.once cell c) c' where
  mono := h.mono
  coherent p s hs := by
    rw [Resolving.runWith_once]
    cases cell.known? s with
    | some a => exact hs
    | none =>
        have coherent := h.coherent p s hs
        have value := h.value p s hs
        rcases hrun : c.runWith s with ⟨e | a, s'⟩
        · rw [hrun] at coherent
          exact coherent
        · rw [hrun] at coherent value
          obtain ⟨n, hn⟩ := value a rfl
          exact holds.keep p coherent hn
  value p s hs a ha := by
    rw [Resolving.runWith_once] at ha
    cases known : cell.known? s with
    | some done =>
        rw [known] at ha
        cases ha
        -- A remembered value was put there by the same computation.
        exact holds.answer p hs known
    | none =>
        have value := h.value p s hs
        rw [known] at ha
        rcases hrun : c.runWith s with ⟨e | b, s'⟩
        · rw [hrun] at ha
          cases ha
        · rw [hrun] at ha value
          cases ha
          exact value _ rfl

/-- A computation that never returns agrees with every reading that more depth loses no value of. -/
theorem Remembers.of_throw (e : ReferenceFault) {c' : Nat → Except ReferenceFault α}
    (mono : ∀ {n k a}, n ≤ k → c' n = .ok a → c' k = .ok a) :
    Remembers d P (MonadExcept.throw e : Resolving α) c' where
  mono := mono
  coherent _ _ hs := hs
  value _ _ _ _ h := by cases h

/-- One more level of depth reads the same computation.  A step asks its solvers at one depth less
than its own. -/
theorem Remembers.of_succ {c : Resolving α} {c' : Nat → Except ReferenceFault α}
    (mono : ∀ {n k a}, n ≤ k → c' n = .ok a → c' k = .ok a)
    (h : Remembers d P c fun n => c' (n + 1)) : Remembers d P c c' where
  mono := mono
  coherent := h.coherent
  value p s hs a ha := by
    obtain ⟨n, hn⟩ := h.value p s hs a ha
    exact ⟨n + 1, hn⟩

end Memory

/-! ### The resolver -/

/-- **The resolver agrees with the direct resolution**, whatever fuel it has.  The induction is on
the fuel; without fuel the resolver returns nothing. -/
theorem agree_solvers (d : Device) (fuel : Nat) :
    (remembers d).Agree d (Chain d) (solvers d fuel) (direct d) := by
  induction fuel with
  | zero =>
      refine ⟨?_, ?_, Chain.tail, fun found ⟨_, base⟩ => .ofPeripheral found base⟩
      · intro i
        exact .of_throw _ direct_peripheral_mono
      · intro levels i
        exact .of_throw _ direct_child_mono
  | succ fuel ih =>
      refine ⟨?_, ?_, Chain.tail, fun found ⟨_, base⟩ => .ofPeripheral found base⟩
      · intro i
        rw [solvers]
        dsimp only
        cases found : d.peripherals[i]? with
        | none => exact .of_throw _ direct_peripheral_mono
        | some p =>
            have body := Agreement.rel_resolvePeripheralBody (P := True) ih found
            refine .once (.peripheral i) (.during (.of_succ direct_peripheral_mono ?_) _ _ _)
            simp only [direct, found]
            exact body
      · intro levels i
        rw [solvers]
        dsimp only
        cases levels with
        | nil => exact .of_throw _ direct_child_mono
        | cons level outer =>
            dsimp only
            cases found : level.own[i]? with
            | none => exact .of_throw _ direct_child_mono
            | some item =>
                have body := Agreement.rel_resolveItem (P := Chain d (level :: outer)) ih id
                  (level.place.child i) (childPath level.path item.name) item
                  (by
                    rintro own children base rfl chain ⟨n, hbase⟩
                    -- The base of a cluster is known to resolve when its children are asked for.
                    exact .ofCluster chain found hbase)
                refine .once (.item i) (.during (.of_succ direct_child_mono ?_) _ _ _)
                simp only [direct, found]
                exact body

/-- **What the resolver returns for a peripheral is what the direct resolution
returns at some depth**, and the resolver may be used for the next one. -/
theorem resolvePeripheral_direct (d : Device) (i : Nat) :
    Remembers d True (resolvePeripheral d i) fun n => (direct d n).peripheral i :=
  (agree_solvers d _).peripheral i

/-- **A resolved device is the direct resolution of its peripherals**, all at one
depth. -/
theorem resolve_direct {d r : Device} (h : resolve d = .ok r) :
    r = { d with peripherals := r.peripherals } ∧
      ∃ n, List.Forall₂ (fun i q => (direct d n).peripheral i = .ok q)
        (List.range d.peripherals.length) r.peripherals := by
  obtain ⟨peripherals, hall, hr⟩ := bind_eq_ok.mp h
  obtain rfl := (Except.ok.inj hr).symm
  refine ⟨rfl, ?_⟩
  have all := Agreement.rel_mapM (S := remembers d) (P := True) (resolvePeripheral d)
    (fun i n => (direct d n).peripheral i) (List.range d.peripherals.length)
    fun i _ => resolvePeripheral_direct d i
  obtain ⟨n, hn⟩ := all.value trivial .fresh (Resolver.coherent_fresh d) peripherals hall
  exact ⟨n, mapM_eq_ok.mp hn⟩

end ChipMap.Inheritance
