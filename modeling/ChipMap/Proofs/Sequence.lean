import Mathlib.Data.List.Forall2

/-!
# Sequences of computations that may fail

A sequence returns a value when each of its steps does.  `bind_eq_ok` and `mapM_eq_ok` are the two
forms in which this is used: **what a computation that succeeds has computed on the way**.

Whatever is read, resolved or laid out here is computed in such sequences, so most proofs about a
whole run begin by taking it apart into its steps.  They go on with lists of computations and the
lists of their values, which `List.Forall₂` relates entry by entry.

### What is load-bearing

Two runs are compared in more than one sense: they agree, or they agree up to an order.  The step
from single computations to lists of them is the same in each sense, so it is taken for any family
of relations that values and sequences respect (`mapM_forall₂`).
-/

namespace ChipMap

/-- A sequence of plain computations succeeds when each of them does.  The value on the way is given
back, together with where it comes from. -/
theorem bind_eq_ok {ε α β : Type} {c : Except ε α} {f : α → Except ε β} {b : β} :
    (c >>= f) = .ok b ↔ ∃ a, c = .ok a ∧ f a = .ok b := by
  cases c with
  | error e => simp [bind, Except.bind]
  | ok a => simp [bind, Except.bind]

/-- A sequence of plain computations fails with the fault of the first one that does.  The second
one is not looked at if the first one fails. -/
theorem bind_eq_error {ε α β : Type} {c : Except ε α} {f : α → Except ε β} {e : ε} :
    (c >>= f) = .error e ↔ c = .error e ∨ ∃ a, c = .ok a ∧ f a = .error e := by
  cases c with
  | error e => simp [bind, Except.bind]
  | ok a => simp [bind, Except.bind]

/-- A fault that is put in other words stays a fault, and a value stays the value. -/
theorem mapError_eq_ok {ε ε' α : Type} {c : Except ε α} {f : ε → ε'} {a : α} :
    c.mapError f = .ok a ↔ c = .ok a := by
  cases c with
  | error e => simp [Except.mapError]
  | ok b => simp [Except.mapError]

theorem map_eq_ok {ε α β : Type} {c : Except ε α} {view : α → β} {seen : β} :
    c.map view = .ok seen ↔ ∃ a, c = .ok a ∧ view a = seen := by
  cases c with
  | error e => simp [Except.map]
  | ok a => simp [Except.map]

/-- A list of plain computations that all succeed, with their values.  Both lists have one
length. -/
theorem mapM_eq_ok {ε α β : Type} {f : α → Except ε β} {items : List α} {values : List β} :
    items.mapM f = .ok values ↔ List.Forall₂ (fun x y => f x = .ok y) items values := by
  induction items generalizing values with
  | nil =>
      simp only [List.mapM_nil, List.forall₂_nil_left_iff]
      exact ⟨fun h => (Except.ok.inj h).symm, fun h => h ▸ rfl⟩
  | cons x rest ih =>
      simp only [List.mapM_cons, bind_eq_ok, List.forall₂_cons_left_iff, ← ih]
      constructor
      · rintro ⟨y, hy, ys, hys, h⟩
        exact ⟨y, ys, hy, hys, (Except.ok.inj h).symm⟩
      · rintro ⟨y, ys, hy, hys, rfl⟩
        exact ⟨y, hy, ys, hys, rfl⟩

/-- **Steps that are related over related lists** are related entry by entry.  A relation of
computations is given for each relation of their values; it holds of related values, and a
computation may be put in front of another one on both sides. -/
theorem mapM_forall₂ {ε ε' : Type}
    (rel : ∀ {α β : Type}, (α → β → Prop) → Except ε α → Except ε' β → Prop)
    (ok : ∀ {α β : Type} {R : α → β → Prop} {a b}, R a b → rel R (.ok a) (.ok b))
    (bind : ∀ {α β γ δ : Type} {R : α → β → Prop} {S : γ → δ → Prop} {c : Except ε α}
      {c' : Except ε' β} {f : α → Except ε γ} {f' : β → Except ε' δ}, rel R c c' →
        (∀ a b, R a b → rel S (f a) (f' b)) → rel S (c >>= f) (c' >>= f'))
    {α β γ δ : Type} {R : α → β → Prop} {S : γ → δ → Prop} {xs : List α} {ys : List β}
    {f : α → Except ε γ} {f' : β → Except ε' δ} (h : List.Forall₂ R xs ys)
    (step : ∀ x y, R x y → rel S (f x) (f' y)) :
    rel (List.Forall₂ S) (xs.mapM f) (ys.mapM f') := by
  induction h with
  | nil => exact ok .nil
  | cons head _ ih =>
      rw [List.mapM_cons, List.mapM_cons]
      exact bind (step _ _ head) fun a b first => bind ih fun as bs others => ok (.cons first others)

theorem mapM_congr {ε α β : Type} {f g : α → Except ε β} {items : List α}
    (h : ∀ x ∈ items, f x = g x) : items.mapM f = items.mapM g := by
  induction items with
  | nil => rfl
  | cons x rest ih =>
      rw [List.mapM_cons, List.mapM_cons, h x List.mem_cons_self,
        ih fun y hy => h y (List.mem_cons_of_mem _ hy)]

/-- A list of plain computations fails with the fault of one of them.  It is the first one that
fails, which is seldom needed. -/
theorem exists_of_mapM_eq_error {ε α β : Type} {f : α → Except ε β} {items : List α} {e : ε}
    (h : items.mapM f = .error e) : ∃ x ∈ items, f x = .error e := by
  induction items with
  | nil => cases h
  | cons x rest ih =>
      rw [List.mapM_cons] at h
      rcases bind_eq_error.mp h with first | ⟨y, -, h⟩
      · exact ⟨x, List.mem_cons_self, first⟩
      · rcases bind_eq_error.mp h with others | ⟨ys, -, h⟩
        · obtain ⟨x', hx', failed⟩ := ih others
          exact ⟨x', List.mem_cons_of_mem _ hx', failed⟩
        · cases h

/-- Computations that all succeed one by one do in sequence. -/
theorem exists_mapM_eq_ok {ε α β : Type} {f : α → Except ε β} {items : List α}
    (h : ∀ x ∈ items, ∃ y, f x = .ok y) : ∃ values, items.mapM f = .ok values := by
  cases run : items.mapM f with
  | ok values => exact ⟨values, rfl⟩
  | error e =>
      obtain ⟨x, hx, failed⟩ := exists_of_mapM_eq_error run
      obtain ⟨y, done⟩ := h x hx
      cases failed.symm.trans done

theorem exists_of_forall₂ {α β : Type} {R : α → β → Prop} {xs : List α} {ys : List β}
    (h : List.Forall₂ R xs ys) {x : α} (hx : x ∈ xs) : ∃ y ∈ ys, R x y := by
  induction h with
  | nil => cases hx
  | @cons x' y rest others head _ ih =>
      rcases List.mem_cons.mp hx with rfl | hx
      · exact ⟨y, List.mem_cons_self, head⟩
      · obtain ⟨y', hy', related⟩ := ih hx
        exact ⟨y', List.mem_cons_of_mem _ hy', related⟩

/-- Related entries are entries of the two lists.  This adds to a relation what is known of either
list as a whole. -/
theorem forall₂_members {α β : Type} {R : α → β → Prop} {xs : List α} {ys : List β}
    (h : List.Forall₂ R xs ys) : List.Forall₂ (fun x y => x ∈ xs ∧ y ∈ ys ∧ R x y) xs ys := by
  rw [List.forall₂_iff_zip] at h ⊢
  exact ⟨h.1, fun {a b} pair => ⟨(List.of_mem_zip pair).1, (List.of_mem_zip pair).2, h.2 pair⟩⟩

/-- Entries of a list pair up as the entries of another list do, when related pairs are. -/
theorem pairwise_of_forall₂ {α β : Type} {T : α → β → Prop} {R : α → α → Prop}
    {S : β → β → Prop} {xs : List α} {ys : List β} (h : List.Forall₂ T xs ys)
    (pairs : ys.Pairwise S) (step : ∀ x ∈ xs, ∀ x' ∈ xs, ∀ y ∈ ys, ∀ y' ∈ ys,
      T x y → T x' y' → S y y' → R x x') : xs.Pairwise R := by
  induction h with
  | nil => exact .nil
  | @cons x y xs ys head tail ih =>
      obtain ⟨first, later⟩ := List.pairwise_cons.mp pairs
      refine List.pairwise_cons.mpr ⟨fun x' hx' => ?_, ih later fun x hx x' hx' y hy y' hy' => ?_⟩
      · obtain ⟨y', hy', related⟩ := exists_of_forall₂ tail hx'
        exact step x List.mem_cons_self x' (List.mem_cons_of_mem _ hx') y List.mem_cons_self y'
          (List.mem_cons_of_mem _ hy') head related (first y' hy')
      · exact step x (List.mem_cons_of_mem _ hx) x' (List.mem_cons_of_mem _ hx') y
          (List.mem_cons_of_mem _ hy) y' (List.mem_cons_of_mem _ hy')

/-- Each value of a list of computations comes from one of them. -/
theorem exists_of_mapM_eq_ok {ε α β : Type} {f : α → Except ε β} {items : List α}
    {values : List β} (h : items.mapM f = .ok values) {y : β} (hy : y ∈ values) :
    ∃ x ∈ items, f x = .ok y :=
  exists_of_forall₂ (mapM_eq_ok.mp h).flip hy

/-- Numbers that lead to the entries of a list lead to the list, when they are taken in order. -/
theorem mapM_range_eq_ok {ε α : Type} {f : Nat → Except ε α} {items : List α}
    (h : ∀ i x, items[i]? = some x → f i = .ok x) :
    (List.range items.length).mapM f = .ok items := by
  refine mapM_eq_ok.mpr (List.forall₂_iff_get.mpr ⟨List.length_range, fun i hi hx => ?_⟩)
  rw [List.get_eq_getElem, List.get_eq_getElem, List.getElem_range]
  exact h i _ (List.getElem?_eq_getElem hx)

/-- Entries of a list computed for each number of another list.  The computation need not look at
the entry that has the number. -/
theorem forall₂_of_range {α β : Type} {owns : List α} {kept : List β} {R : Nat → β → Prop}
    (h : List.Forall₂ R (List.range owns.length) kept) :
    List.Forall₂ (fun own x => ∃ i, owns[i]? = some own ∧ kept[i]? = some x ∧ R i x)
      owns kept := by
  have length : owns.length = kept.length := by simpa using h.length_eq
  rw [List.forall₂_iff_get] at h ⊢
  refine ⟨length, fun i hi hk => ⟨i, ?_, ?_, ?_⟩⟩
  · exact List.getElem?_eq_getElem hi
  · exact List.getElem?_eq_getElem hk
  · simpa using h.2 i (by simpa using hi) hk

theorem getElem?_of_range {α : Type} {n i : Nat} {kept : List α} {R : Nat → α → Prop}
    (h : List.Forall₂ R (List.range n) kept) (hi : i < n) :
    ∃ x, kept[i]? = some x ∧ R i x := by
  have length : n = kept.length := by simpa using h.length_eq
  have hk : i < kept.length := by omega
  refine ⟨kept[i], List.getElem?_eq_getElem hk, ?_⟩
  simpa using (List.forall₂_iff_get.mp h).2 i (by simpa using hi) hk

end ChipMap
