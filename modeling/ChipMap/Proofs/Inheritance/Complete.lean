import ChipMap.Proofs.Inheritance.Scope
import ChipMap.Proofs.Inheritance.Settle

/-!
# Resolution finds what there is

What the resolver returns is an answer of the direct resolution.  The converse holds too: **a
description whose peripherals all have an answer of the direct resolution resolves to these
answers** (`resolve_of_direct`), so the order in which nodes are asked for decides about no result.

### What is load-bearing

The resolver refuses a node that is under way, and the direct resolution does not.  A node that has
an answer at some depth needs only nodes that have one at a smaller depth, so while it is resolved
at the least depth at which it has one, it is not asked for again.  `Free` says this of all nodes
under way.

The least depth is a depth for one node.  When a node is put under way, the depth at which the
resolver is compared goes down to just below the least depth of that node (`Completes.during`), and
everything that was under way before is still without an answer there.
-/

namespace ChipMap.Inheritance

open Description

/-- **The node at a place has an answer** of the direct resolution at the depth `n`.  The answer
itself is left open. -/
inductive Answered (d : Device) (n : Nat) : Place → Prop
  | peripheral {i : Nat} {q : Peripheral} :
    (direct d n).peripheral i = .ok q → Answered d n ⟨i, []⟩
  | child {level : Level} {outer : List Level} {i : Nat} {x : Item} : Chain d (level :: outer) →
    (direct d n).child (level :: outer) i = .ok x → Answered d n (level.place.child i)

theorem Answered.mono {d : Device} {n k : Nat} {p : Place} (h : n ≤ k) (answered : Answered d n p) :
    Answered d k p := by
  cases answered with
  | peripheral found => exact .peripheral (direct_peripheral_mono h found)
  | child chain found => exact .child chain (direct_child_mono h found)

theorem answered_peripheral {d : Device} {n i : Nat} :
    Answered d n ⟨i, []⟩ ↔ ∃ q, (direct d n).peripheral i = .ok q := by
  constructor
  · intro h
    generalize place : (⟨i, []⟩ : Place) = p at h
    cases h with
    | peripheral found =>
        obtain ⟨rfl, -⟩ := Place.mk.inj place
        exact ⟨_, found⟩
    | child _ _ => exact absurd place.symm Place.child_ne_peripheral
  · rintro ⟨q, found⟩
    exact .peripheral found

/-- The levels of a place are known, so its node has one answer, and its place tells whether there
is one. -/
theorem answered_child {d : Device} {level : Level} {outer : List Level}
    (chain : Chain d (level :: outer)) {n i : Nat} :
    Answered d n (level.place.child i) ↔ ∃ x, (direct d n).child (level :: outer) i = .ok x := by
  constructor
  · intro h
    generalize place : level.place.child i = p at h
    cases h with
    | peripheral _ => exact absurd place Place.child_ne_peripheral
    | child chain' found =>
        obtain ⟨same, rfl⟩ := Place.child_inj.mp place
        obtain ⟨rfl, rfl⟩ := List.cons.inj (chain.unique chain' same)
        exact ⟨_, found⟩
  · rintro ⟨x, found⟩
    exact .child chain found

/-- A value that is there at some depth is there first at some depth, and that depth is not zero. -/
theorem exists_first {α : Type} {c : Nat → Except ReferenceFault α}
    (mono : ∀ {n k a}, n ≤ k → c n = .ok a → c k = .ok a) (never : ∀ a, c 0 ≠ .ok a) {n : Nat}
    {a : α} (value : c n = .ok a) : ∃ k < n, c (k + 1) = .ok a ∧ ∀ b, c k ≠ .ok b := by
  induction n with
  | zero => exact absurd value (never a)
  | succ n ih =>
      by_cases earlier : ∃ b, c n = .ok b
      · obtain ⟨b, hb⟩ := earlier
        obtain rfl := Except.ok.inj ((mono (Nat.le_succ n) hb).symm.trans value)
        obtain ⟨k, below, first⟩ := ih hb
        exact ⟨k, Nat.lt_succ_of_lt below, first⟩
      · exact ⟨n, Nat.lt_succ_self n, value, fun b hb => earlier ⟨b, hb⟩⟩

/-- **No node under way has an answer** at the depth `n`. -/
structure Free (d : Device) (n : Nat) (s : Resolver) : Prop where
  coherent : s.Coherent d
  unanswered : ∀ u ∈ s.underway, ¬Answered d n u.place

/-- **A computation finds the values of its direct reading**, down to the depth `fuel`, and leaves
the nodes under way as they were.  It is assumed that no node under way has an answer at that
depth. -/
structure Completes (d : Device) (fuel : Nat) {α : Type} (P : Prop) (c : Resolving α)
    (c' : Nat → Except ReferenceFault α) : Prop where
  remembers : Remembers d P c c'
  finds : P → ∀ {n a s}, n ≤ fuel → c' n = .ok a → Free d n s →
    ∃ s', c.runWith s = (.ok a, s') ∧ s'.underway = s.underway

namespace Completes

variable {d : Device} {fuel : Nat} {α β : Type} {P : Prop}

theorem pure (a : α) : Completes d fuel P (Pure.pure a) fun _ => .ok a where
  remembers := .pure a
  finds _ _ _ s _ value _ := ⟨s, by rw [Resolving.runWith_pure, Except.ok.inj value], rfl⟩

theorem throw (e : ReferenceFault) :
    Completes d fuel P (MonadExcept.throw e : Resolving α) fun _ => .error e where
  remembers := .throw e
  finds _ _ _ _ _ value _ := nomatch value

theorem weaken {Q : Prop} {c : Resolving α} {c' : Nat → Except ReferenceFault α} (q : Q → P)
    (h : Completes d fuel P c c') : Completes d fuel Q c c' where
  remembers := h.remembers.weaken q
  finds p := h.finds (q p)

theorem bind {c : Resolving α} {c' : Nat → Except ReferenceFault α} {f : α → Resolving β}
    {f' : α → Nat → Except ReferenceFault β} (hc : Completes d fuel P c c')
    (hf : ∀ a, Completes d fuel (P ∧ ∃ n, c' n = .ok a) (f a) (f' a)) :
    Completes d fuel P (c >>= f) fun n => c' n >>= fun a => f' a n where
  remembers := hc.remembers.bind fun a => (hf a).remembers
  finds p n b s bound value free := by
    obtain ⟨a, ha, hb⟩ := bind_eq_ok.mp value
    obtain ⟨s', run, same⟩ := hc.finds p bound ha free
    have coherent := hc.remembers.coherent p s free.coherent
    rw [run] at coherent
    obtain ⟨s'', run', same'⟩ := (hf a).finds ⟨p, n, ha⟩ bound hb
      ⟨coherent, same ▸ free.unanswered⟩
    refine ⟨s'', ?_, same'.trans same⟩
    rw [Resolving.runWith_bind, run]
    exact run'

/-- **A node is put under way at the least depth at which it has an answer.**  There it is not yet
among those that have one, and with what it needs one unit of depth less is enough. -/
theorem during {kind : ItemKind} {place : Place} {path : String} {c : Resolving α}
    {c' : Nat → Except ReferenceFault α}
    (mono : ∀ {n k a}, n ≤ k → c' n = .ok a → c' k = .ok a) (never : ∀ a, c' 0 ≠ .ok a)
    (answers : P → ∀ n, Answered d n place ↔ ∃ a, c' n = .ok a)
    (h : Completes d fuel P c fun n => c' (n + 1)) :
    Completes d (fuel + 1) P (.during kind place path c) c' where
  remembers := .during (.of_succ mono h.remembers) kind place path
  finds p n a s bound value free := by
    have idle : ¬(s.underway.any fun u => u.place == place) = true := by
      intro found
      obtain ⟨u, hu, at_⟩ := List.any_eq_true.mp found
      exact free.unanswered u hu (eq_of_beq at_ ▸ (answers p n).mpr ⟨a, value⟩)
    -- At the depth `k` the node has no answer yet, so being under way it is still free there.
    obtain ⟨k, below, first, before⟩ := exists_first mono never value
    have started : Free d k { s with underway := ⟨place, path⟩ :: s.underway } := by
      refine ⟨free.coherent.of_memory rfl rfl, fun u hu answered => ?_⟩
      rcases List.mem_cons.mp hu with rfl | hu
      · obtain ⟨b, hb⟩ := (answers p k).mp answered
        exact before b hb
      · exact free.unanswered u hu (answered.mono (Nat.le_of_lt below))
    obtain ⟨s', run, same⟩ := h.finds p (by omega) first started
    refine ⟨{ s' with underway := s'.underway.tail }, ?_, by rw [same]; rfl⟩
    rw [Resolving.runWith_during, if_neg idle, run]

/-- **A resolved node is handed out, or found.**  What the cell knows is the answer, as an answer is
the same at each depth. -/
theorem once {cell : Cell α} {c : Resolving α} {c' : Nat → Except ReferenceFault α}
    (holds : cell.Holds d P c') (h : Completes d fuel P c c') :
    Completes d fuel P (.once cell c) c' where
  remembers := .once holds h.remembers
  finds p n a s bound value free := by
    rw [Resolving.runWith_once]
    cases known : cell.known? s with
    | some done =>
        -- What is remembered was found at another depth, and depths agree.
        obtain ⟨k, found⟩ := holds.answer p free.coherent known
        have left := h.remembers.mono (Nat.le_max_left n k) value
        have right := h.remembers.mono (Nat.le_max_right n k) found
        exact ⟨s, by rw [Except.ok.inj (right.symm.trans left)], rfl⟩
    | none =>
        obtain ⟨s', run, same⟩ := h.finds p bound value free
        refine ⟨cell.keep a s', ?_, (cell.underway a s').trans same⟩
        rw [run]

end Completes

/-- The steps respect `Completes`, so every computation that is built of them does. -/
def completes (d : Device) (fuel : Nat) : Agreement Resolving Nat where
  rel := Completes d fuel
  pure _ := .pure
  throw _ := .throw
  bind := .bind
  weaken := .weaken

theorem Completes.of_never {d : Device} {fuel : Nat} {α : Type} {P : Prop} {c : Resolving α}
    {c' : Nat → Except ReferenceFault α} (remembers : Remembers d P c c')
    (never : ∀ {n a}, n ≤ fuel → c' n ≠ .ok a) : Completes d fuel P c c' where
  remembers := remembers
  finds _ _ _ _ bound value _ := absurd value (never bound)

/-- **The resolver finds what the direct resolution answers**, down to the depth that it has fuel
for.  The induction is on the fuel. -/
theorem agree_completes (d : Device) (fuel : Nat) :
    (completes d fuel).Agree d (Chain d) (solvers d fuel) (direct d) := by
  induction fuel with
  | zero =>
      -- Without fuel only answers of depth zero are promised, and there are none.
      have never : ∀ {n : Nat}, n ≤ 0 → n = 0 := Nat.le_zero.mp
      have agree := agree_solvers d 0
      refine ⟨fun i => ?_, fun levels i => ?_, agree.outer, agree.ofPeripheral⟩
      · refine .of_never (agree.peripheral i) fun bound value => ?_
        cases never bound
        cases value
      · refine .of_never (agree.child levels i) fun bound value => ?_
        cases never bound
        cases value
  | succ fuel ih =>
      have agree := agree_solvers d (fuel + 1)
      refine ⟨fun i => ?_, fun levels i => ?_, agree.outer, agree.ofPeripheral⟩
      · cases found : d.peripherals[i]? with
        | none =>
            refine .of_never (agree.peripheral i) fun _ value => ?_
            obtain ⟨p, there, -⟩ := (direct_closed d _).peripheral value
            cases found.symm.trans there
        | some p =>
            have body := Agreement.rel_resolvePeripheralBody (P := True) ih found
            rw [solvers]
            dsimp only
            rw [found]
            refine .once (.peripheral i) (.during direct_peripheral_mono (fun _ h => by cases h)
              (fun _ n => answered_peripheral) ?_)
            simp only [direct, found]
            exact body
      · cases levels with
        | nil =>
            refine .of_never (agree.child [] i) fun {n a} _ value => ?_
            cases n with
            | zero => cases value
            | succ n => cases value
        | cons level outer =>
            cases found : level.own[i]? with
            | none =>
                refine .of_never (agree.child _ i) fun _ value => ?_
                obtain ⟨item, there, -⟩ := (direct_closed d _).child value
                cases found.symm.trans there
            | some item =>
                have body := Agreement.rel_resolveItem (P := Chain d (level :: outer)) ih id
                  (level.place.child i) (childPath level.path item.name) item
                  (by
                    rintro own children base rfl chain ⟨n, hbase⟩
                    exact .ofCluster chain found hbase)
                rw [solvers]
                dsimp only
                rw [found]
                refine .once (.item i) (.during direct_child_mono (fun _ h => by cases h)
                  (fun chain n => answered_child chain) ?_)
                simp only [direct, found]
                exact body

/-- **A description resolves to the answers of its direct resolution**, when all peripherals have
one. -/
theorem resolve_of_direct {d : Device} {n : Nat} {peripherals : List Peripheral}
    (answers : (List.range d.peripherals.length).mapM (direct d n).peripheral = .ok peripherals) :
    resolve d = .ok { d with peripherals } := by
  have enough : nodeCount d < max n (nodeCount d + 1) := by omega
  have all := Agreement.rel_mapM (S := completes d (max n (nodeCount d + 1))) (P := True)
    (solvers d _).peripheral (fun i n => (direct d n).peripheral i)
    (List.range d.peripherals.length) fun i _ => (agree_completes d _).peripheral i
  obtain ⟨s', run, -⟩ := all.finds trivial (Nat.le_max_left _ _) answers
    ⟨Resolver.coherent_fresh d, fun u hu => nomatch hu⟩
  rw [← resolveWith_eq_resolve enough, resolveWith, run]
  rfl

end ChipMap.Inheritance
