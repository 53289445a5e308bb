import ChipMap.Inheritance.Resolver

/-!
# Two readings of the steps of a resolution

The steps of a resolution are written for any monad that can fail.  The resolution itself reads them
with a memory of what is resolved and with the nodes under way; a law about results is easier to
prove of a reading without either.  What ties two readings together is a relation between
computations that `return`, `throw` and `>>=` respect: **every step respects such a relation as soon
as the two `Solvers` do.**

* `Agreement` — a relation between the computations of a monad and families of plain computations,
  with a condition under which they are compared.
* `Agreement.Agree` — two solvers whose answers are related.
* `Agreement.rel_basePeripheral` … `Agreement.rel_resolvePeripheralBody` — one law for each step.

### What is load-bearing

The family is indexed, by the depth to which references are followed in the one use and by nothing
in another.  The condition carries what is known at a point: a child may be asked for only at levels
that `Fit`, and that a level fits is known only once the base of its parent was read off the plain
side, which is why `bind` hands the plain result on to the condition.

The laws of the steps are the only proofs that look into the steps for such a purpose.  Four
relations are instances (`keepsValue`, `remembers`, `completes` and `repeats`), and each of them has
to be proved for the answers of solvers only.
-/

namespace ChipMap.Inheritance

open Description

/-- **A relation that sequencing respects**, between the computations of `m` and families of plain
ones.  Two computations are compared only where the condition holds. -/
structure Agreement (m : Type → Type) [Monad m] [MonadExceptOf ReferenceFault m]
    (ι : Type) where
  /-- The two computations agree where the condition holds. -/
  rel : {α : Type} → Prop → m α → (ι → Except ReferenceFault α) → Prop
  /-- The same value agrees with itself. -/
  pure : ∀ {α : Type} (P : Prop) (a : α), rel P (Pure.pure a) fun _ => .ok a
  /-- The same fault agrees with itself. -/
  throw : ∀ {α : Type} (P : Prop) (e : ReferenceFault),
    rel (α := α) P (MonadExcept.throw e) fun _ => .error e
  /-- The rest of a computation is compared where the plain side has the value
  that the rest is applied to. -/
  bind : ∀ {α β : Type} {P : Prop} {c : m α} {c' : ι → Except ReferenceFault α}
    {f : α → m β} {f' : α → ι → Except ReferenceFault β},
    rel P c c' → (∀ a, rel (P ∧ ∃ n, c' n = .ok a) (f a) (f' a)) →
      rel P (c >>= f) fun n => c' n >>= fun a => f' a n
  /-- A stronger condition compares less. -/
  weaken : ∀ {α : Type} {P Q : Prop} {c : m α} {c' : ι → Except ReferenceFault α},
    (Q → P) → rel P c c' → rel Q c c'

namespace Agreement

variable {m : Type → Type} [Monad m] [MonadExceptOf ReferenceFault m] {ι : Type}
variable {S : Agreement m ι} {α β : Type} {P : Prop}

theorem rel_map [LawfulMonad m] {c : m α} {c' : ι → Except ReferenceFault α} (g : α → β)
    (h : S.rel P c c') : S.rel P (g <$> c) fun n => g <$> c' n := by
  have same : (fun n => g <$> c' n) = fun n => c' n >>= fun a => .ok (g a) := by
    funext n
    cases c' n <;> rfl
  rw [same, ← bind_pure_comp]
  exact S.bind h fun a => S.pure _ (g a)

/-- The plain computations themselves agree with every reading of them, because both are values or
both are faults. -/
theorem rel_ofExcept (e : Except ReferenceFault α) :
    S.rel P (ofExcept e) fun _ => ofExcept e := by
  cases e with
  | error e => exact S.throw P e
  | ok a => exact S.pure P a

/-- One computation after another, over a list.  It is the induction that all steps over children go
through. -/
theorem rel_mapM [LawfulMonad m] {γ : Type} (f : γ → m α)
    (f' : γ → ι → Except ReferenceFault α) :
    ∀ (items : List γ), (∀ x ∈ items, S.rel P (f x) (f' x)) →
      S.rel P (items.mapM f) fun n => items.mapM fun x => f' x n := by
  intro items
  induction items with
  | nil =>
      intro _
      exact S.pure P []
  | cons x rest ih =>
      intro h
      simp only [List.mapM_cons]
      refine S.bind (h x (by simp)) fun a => ?_
      refine S.bind (S.weaken And.left (ih fun y hy => h y (by simp [hy]))) fun as => ?_
      exact S.pure _ (a :: as)

/-- **Two solvers whose answers agree.**  Children are compared at levels that
`Fit`; the levels that a look-up passes through have to fit too. -/
structure Agree (S : Agreement m ι) (d : Device) (Fit : List Level → Prop)
    (solve : Solvers m) (solve' : ι → Solvers (Except ReferenceFault)) : Prop where
  /-- Peripherals agree everywhere. -/
  peripheral : ∀ i, S.rel True (solve.peripheral i) fun n => (solve' n).peripheral i
  /-- Children agree at levels that fit. -/
  child : ∀ levels i,
    S.rel (Fit levels) (solve.child levels i) fun n => (solve' n).child levels i
  /-- The levels around levels that fit, fit. -/
  outer : ∀ {level next outer}, Fit (level :: next :: outer) → Fit (next :: outer)
  /-- The level of a peripheral fits when it inherits what its base has. -/
  ofPeripheral : ∀ {i p base}, d.peripherals[i]? = some p →
    (∃ n, basePeripheral d (solve' n) p = .ok base) →
      Fit [Level.ofPeripheral i p base]

section Steps

variable {d : Device} {Fit : List Level → Prop} {solve : Solvers m}
  {solve' : ι → Solvers (Except ReferenceFault)}
variable [LawfulMonad m] (h : Agree S d Fit solve solve')

include h

theorem rel_basePeripheral (p : Peripheral) :
    S.rel P (basePeripheral d solve p) fun n => basePeripheral d (solve' n) p := by
  unfold basePeripheral
  cases p.derivedFrom with
  | none => exact S.pure P none
  | some target =>
      dsimp only
      cases peripheralIndex? d target with
      | none => exact S.throw P _
      | some j => exact rel_map _ (S.weaken (fun _ => trivial) (h.peripheral j))

theorem rel_resolveLevel {level : Level} {outer : List Level}
    (fit : P → Fit (level :: outer)) :
    S.rel P (resolveLevel solve level outer) fun n =>
      resolveLevel (solve' n) level outer := by
  unfold resolveLevel
  refine S.bind ?_ fun resolved => S.pure _ _
  exact rel_mapM _ (fun i n => (solve' n).child (level :: outer) i) _
    fun i _ => S.weaken fit (h.child _ i)

theorem rel_findInLevel {level : Level} {outer : List Level}
    (fit : P → Fit (level :: outer)) (name : String) :
    S.rel P (findInLevel solve level outer name) fun n =>
      findInLevel (solve' n) level outer name := by
  unfold findInLevel
  cases level.own.findIdx? fun item => item.name == name with
  | none => exact S.pure P _
  | some i => exact rel_map _ (S.weaken fit (h.child _ i))

theorem rel_followFrom {level : Level} {outer : List Level}
    (fit : P → Fit (level :: outer)) (names : List String) :
    S.rel P (followFrom solve level outer names) fun n =>
      followFrom (solve' n) level outer names := by
  cases names with
  | nil => exact S.pure P none
  | cons first rest =>
      refine S.bind (rel_findInLevel h fit first) fun found => ?_
      cases found with
      | none => exact S.pure _ none
      | some item => exact S.pure _ _

theorem rel_lookupLevels (names : List String)
    {levels : List Level} (fit : P → levels ≠ [] → Fit levels) :
    S.rel P (lookupLevels solve names levels) fun n =>
      lookupLevels (solve' n) names levels := by
  induction levels generalizing P with
  | nil => exact S.pure P none
  | cons level outer ih =>
      have here : P → Fit (level :: outer) := fun p => fit p (by simp)
      unfold lookupLevels
      refine S.bind (rel_followFrom h here names) fun found => ?_
      cases found with
      | some item => exact S.pure _ _
      | none =>
          cases outer with
          | cons next outer => exact ih fun p _ => h.outer (here p.1)
          | nil =>
              cases names with
              | nil => exact ih fun _ ne => absurd rfl ne
              | cons first rest =>
                  dsimp only
                  split
                  · exact rel_followFrom h (fun p => here p.1) rest
                  · exact S.pure _ none

theorem rel_lookupElsewhere (levels : List Level) (names : List String) :
    S.rel P (lookupElsewhere d solve levels names) fun n =>
      lookupElsewhere d (solve' n) levels names := by
  unfold lookupElsewhere
  split
  · split
    · exact S.pure P none
    · split
      · exact S.pure P none
      · split
        · exact S.pure P none
        · next found =>
          refine S.bind (rel_basePeripheral h _) fun base => ?_
          exact rel_followFrom h (fun p => h.ofPeripheral found p.2) _
  · exact S.pure P none

theorem rel_lookupReferent {levels : List Level} (fit : P → levels ≠ [] → Fit levels)
    (item : Item) (target : String) :
    S.rel P (lookupReferent d solve levels item target) fun n =>
      lookupReferent d (solve' n) levels item target := by
  unfold lookupReferent
  refine S.bind (rel_lookupLevels h _ fit) fun near => ?_
  cases near with
  | some found => exact S.pure _ found
  | none =>
      refine S.bind (rel_lookupElsewhere h levels _) fun far => ?_
      cases far with
      | some found => exact S.pure _ found
      | none => exact S.throw _ _

theorem rel_referentOf {levels : List Level} (fit : P → levels ≠ [] → Fit levels)
    (item : Item) (path : String) :
    S.rel P (referentOf d solve levels item path) fun n =>
      referentOf d (solve' n) levels item path := by
  unfold referentOf
  cases item.derivedFrom with
  | none => exact S.pure P none
  | some target =>
      refine S.bind (rel_lookupReferent h fit item target) fun found => ?_
      split
      · exact S.pure _ _
      · exact S.throw _ _

theorem rel_itemBase {level : Level} {outer : List Level}
    (fit : P → Fit (level :: outer)) (path : String) (item : Item) :
    S.rel P (itemBase d solve level outer path item) fun n =>
      itemBase d (solve' n) level outer path item := by
  unfold itemBase
  exact S.bind (rel_referentOf h (fun p _ => fit p) item path) fun referent => rel_ofExcept _

/-- The level inside a cluster fits when it inherits what the cluster's base has;
`nested` says so. -/
theorem rel_resolveItem {level : Level} {outer : List Level}
    (fit : P → Fit (level :: outer)) (place : Place) (path : String)
    (item : Item)
    (nested : ∀ own children base, item = .cluster own children → P →
      (∃ n, itemBase d (solve' n) level outer path item = .ok base) →
        Fit (⟨place, path, children, inheritedChildren base⟩ :: level :: outer)) :
    S.rel P (resolveItem d solve level outer place path item) fun n =>
      resolveItem d (solve' n) level outer place path item := by
  unfold resolveItem
  refine S.bind (rel_itemBase h fit path item) fun base => ?_
  cases item with
  | register own => exact S.bind (rel_ofExcept _) fun r => S.pure _ _
  | cluster own children =>
      dsimp only
      refine S.bind (rel_resolveLevel h fun p => nested own children base rfl p.1 p.2)
        fun resolved => ?_
      cases base.bind asClusterInfo? with
      | none => exact S.pure _ _
      | some b => exact S.pure _ _

theorem rel_resolvePeripheralBody {i : Nat} {p : Peripheral}
    (found : d.peripherals[i]? = some p) :
    S.rel P (resolvePeripheralBody d solve i p) fun n =>
      resolvePeripheralBody d (solve' n) i p := by
  unfold resolvePeripheralBody
  refine S.bind (rel_basePeripheral h p) fun base => ?_
  refine S.bind (rel_resolveLevel h fun c => h.ofPeripheral found c.2) fun children => ?_
  cases base with
  | none => exact S.pure _ _
  | some b => exact S.pure _ _

end Steps

end Agreement

end ChipMap.Inheritance
