import ChipMap.Proofs.Sequence
import Mathlib.Data.List.Perm.Basic

/-!
# Lists in another order

Two lists are shuffled when **each entry of the one has a partner in the other**, in any order
(`Shuffled`).  Two computations are alike when **both succeed, with related values, or both fail**
(`Alike`); with which fault they fail may depend on the order.  What ties the two together is
`Alike.mapM`: alike steps over shuffled lists are alike, and their values are shuffled.

### What is load-bearing

A shuffle is a list in between, related entry by entry to the one and a permutation of the other.
Both halves have laws of their own, so each operation on lists has a one-line law here: it goes
through the pairs first and through the permutation second.
-/

namespace ChipMap

/-! ### Computations that succeed together -/

/-- **Two computations succeed with related values or both fail.**  The faults may be of different
types. -/
inductive Alike {ε ε' α β : Type} (R : α → β → Prop) : Except ε α → Except ε' β → Prop
  | ok {a : α} {b : β} : R a b → Alike R (.ok a) (.ok b)
  | error {e : ε} {e' : ε'} : Alike R (.error e) (.error e')

namespace Alike

variable {ε ε' ε'' α β γ δ : Type} {R : α → β → Prop} {S : γ → δ → Prop}
variable {c : Except ε α} {c' : Except ε' β}

theorem refl (c : Except ε α) : Alike Eq c c := by
  cases c with
  | ok a => exact .ok rfl
  | error e => exact .error

theorem mono {R' : α → β → Prop} (h : Alike R c c') (weaker : ∀ a b, R a b → R' a b) :
    Alike R' c c' := by
  cases h with
  | ok related => exact .ok (weaker _ _ related)
  | error => exact .error

theorem bind {f : α → Except ε γ} {f' : β → Except ε' δ} (h : Alike R c c')
    (rest : ∀ a b, R a b → Alike S (f a) (f' b)) : Alike S (c >>= f) (c' >>= f') := by
  cases h with
  | ok related => exact rest _ _ related
  | error => exact .error

theorem bind_eq {c : Except ε α} {c' : Except ε' α} {f : α → Except ε γ} {f' : α → Except ε' δ}
    (h : Alike Eq c c') (rest : ∀ a, Alike S (f a) (f' a)) :
    Alike S (c >>= f) (c' >>= f') :=
  h.bind fun a _ same => same ▸ rest a

theorem map {f : α → γ} {f' : β → δ} (h : Alike R c c') (related : ∀ a b, R a b → S (f a) (f' b)) :
    Alike S (f <$> c) (f' <$> c') := by
  cases h with
  | ok r => exact .ok (related _ _ r)
  | error => exact .error

theorem trans {T : β → γ → Prop} {c'' : Except ε'' γ} (h : Alike R c c') (h' : Alike T c' c'') :
    Alike (Relation.Comp R T) c c'' := by
  cases h with
  | ok r =>
      cases h' with
      | ok r' => exact .ok ⟨_, r, r'⟩
  | error =>
      cases h' with
      | error => exact .error

theorem returned (h : Alike R c c') : Alike (fun a b => c = .ok a ∧ c' = .ok b ∧ R a b) c c' := by
  cases h with
  | ok r => exact .ok ⟨rfl, rfl, r⟩
  | error => exact .error

theorem exists_right (h : Alike R c c') {a : α} (done : c = .ok a) :
    ∃ b, c' = .ok b ∧ R a b := by
  subst done
  cases h with
  | ok r => exact ⟨_, rfl, r⟩

theorem exists_left (h : Alike R c c') {b : β} (done : c' = .ok b) :
    ∃ a, c = .ok a ∧ R a b := by
  subst done
  cases h with
  | ok r => exact ⟨_, rfl, r⟩

theorem mapError {ε₁ ε₂ : Type} (h : Alike R c c') (f : ε → ε₁) (f' : ε' → ε₂) :
    Alike R (c.mapError f) (c'.mapError f') := by
  cases h with
  | ok r => exact .ok r
  | error => exact .error

/-- **Alike steps over related lists** are alike, entry by entry. -/
theorem mapM_forall₂ {xs : List α} {ys : List β} {f : α → Except ε γ} {f' : β → Except ε' δ}
    (h : List.Forall₂ R xs ys) (step : ∀ x y, R x y → Alike S (f x) (f' y)) :
    Alike (List.Forall₂ S) (xs.mapM f) (ys.mapM f') :=
  ChipMap.mapM_forall₂ (Alike) .ok .bind h step

/-- The same steps in another order are alike. -/
theorem mapM_perm {xs ys : List α} (h : xs.Perm ys) (f : α → Except ε γ) :
    Alike List.Perm (xs.mapM f) (ys.mapM f) := by
  induction h with
  | nil => exact .ok .nil
  | cons x _ ih =>
      rw [List.mapM_cons, List.mapM_cons]
      exact (refl (f x)).bind_eq fun a => ih.bind fun as bs p => .ok (p.cons a)
  | swap x y rest =>
      -- When both entries fail, the two orders fail with different faults.
      simp only [List.mapM_cons]
      cases f x with
      | error e =>
          cases f y with
          | error e' => exact .error
          | ok b => exact .error
      | ok a =>
          cases f y with
          | error e' => exact .error
          | ok b =>
              cases rest.mapM f with
              | error e' => exact .error
              | ok as => exact .ok (List.Perm.swap a b as)
  | trans _ _ ih ih' => exact (ih.trans ih').mono fun _ _ ⟨_, p, p'⟩ => p.trans p'

end Alike

/-- Entries that are numbered are related as they are without their numbers. -/
theorem forall₂_zipIdx {α β : Type} {R : α → β → Prop} {xs : List α} {ys : List β}
    (h : List.Forall₂ R xs ys) (i j : Nat) :
    List.Forall₂ (fun a b => R a.1 b.1) (xs.zipIdx i) (ys.zipIdx j) := by
  have plain : List.Forall₂ R ((xs.zipIdx i).map Prod.fst) ((ys.zipIdx j).map Prod.fst) := by
    rwa [List.zipIdx_map_fst, List.zipIdx_map_fst]
  exact List.forall₂_map_right_iff.mp (List.forall₂_map_left_iff.mp plain)

/-! ### Shuffled lists -/

/-- **Each entry of one list has its own related entry in the other**, in any order. -/
def Shuffled {α β : Type} (R : α → β → Prop) (xs : List α) (ys : List β) : Prop :=
  ∃ between, List.Forall₂ R xs between ∧ between.Perm ys

namespace Shuffled

variable {α β γ δ : Type} {R : α → β → Prop} {S : γ → δ → Prop} {xs : List α} {ys : List β}

theorem of_perm {xs ys : List α} (h : xs.Perm ys) : Shuffled Eq xs ys :=
  ⟨xs, List.forall₂_same.mpr fun _ _ => rfl, h⟩

theorem perm {xs ys : List α} (h : Shuffled Eq xs ys) : xs.Perm ys := by
  obtain ⟨between, related, p⟩ := h
  rwa [List.forall₂_eq_eq_eq.subst (motive := fun E => E xs between) related]

theorem length_eq (h : Shuffled R xs ys) : xs.length = ys.length := by
  obtain ⟨between, related, p⟩ := h
  exact related.length_eq.trans p.length_eq

theorem mono {R' : α → β → Prop} (h : Shuffled R xs ys) (weaker : ∀ x y, R x y → R' x y) :
    Shuffled R' xs ys := by
  obtain ⟨between, related, p⟩ := h
  exact ⟨between, related.imp weaker, p⟩

/-- Shuffles compose with lists that are related one by one. -/
theorem comp {S : β → γ → Prop} {T : α → γ → Prop} {zs : List γ} (h : List.Forall₂ R xs ys)
    (h' : Shuffled S ys zs) (both : ∀ x y z, R x y → S y z → T x z) : Shuffled T xs zs := by
  obtain ⟨between, pairs, p⟩ := h'
  refine ⟨between, ?_, p⟩
  clear p
  induction h generalizing between with
  | nil =>
      cases pairs
      exact .nil
  | cons head _ ih =>
      cases pairs with
      | cons head' tail' => exact .cons (both _ _ _ head head') (ih _ tail')

theorem members (h : Shuffled R xs ys) :
    Shuffled (fun x y => x ∈ xs ∧ y ∈ ys ∧ R x y) xs ys := by
  obtain ⟨between, related, p⟩ := h
  exact ⟨between, (forall₂_members related).imp fun _ _ ⟨hx, hy, r⟩ => ⟨hx, p.subset hy, r⟩, p⟩

theorem exists_right (h : Shuffled R xs ys) {x : α} (mem : x ∈ xs) : ∃ y ∈ ys, R x y := by
  obtain ⟨between, related, p⟩ := h
  obtain ⟨y, hy, r⟩ := exists_of_forall₂ related mem
  exact ⟨y, p.subset hy, r⟩

theorem exists_left (h : Shuffled R xs ys) {y : β} (mem : y ∈ ys) : ∃ x ∈ xs, R x y := by
  obtain ⟨between, related, p⟩ := h
  exact exists_of_forall₂ related.flip (p.symm.subset mem)

theorem map {f : α → γ} {f' : β → δ} (h : Shuffled R xs ys)
    (related : ∀ x y, R x y → S (f x) (f' y)) : Shuffled S (xs.map f) (ys.map f') := by
  obtain ⟨between, pairs, p⟩ := h
  refine ⟨between.map f', ?_, p.map f'⟩
  rw [List.forall₂_map_left_iff, List.forall₂_map_right_iff]
  exact pairs.imp related

theorem append {xs' : List α} {ys' : List β} (h : Shuffled R xs ys) (h' : Shuffled R xs' ys') :
    Shuffled R (xs ++ xs') (ys ++ ys') := by
  obtain ⟨between, pairs, p⟩ := h
  obtain ⟨between', pairs', p'⟩ := h'
  exact ⟨between ++ between', List.rel_append pairs pairs', p.append p'⟩

/-- Lists that are shuffled each, from the entries of lists that are. -/
theorem flatMap {f : α → List γ} {f' : β → List δ} (h : Shuffled R xs ys)
    (related : ∀ x y, R x y → Shuffled S (f x) (f' y)) :
    Shuffled S (xs.flatMap f) (ys.flatMap f') := by
  obtain ⟨between, pairs, p⟩ := h
  have joined : Shuffled S (xs.flatMap f) (between.flatMap f') := by
    clear p
    induction pairs with
    | nil => exact ⟨[], .nil, .nil⟩
    | cons head _ ih => exact (related _ _ head).append ih
  obtain ⟨between', pairs', p'⟩ := joined
  exact ⟨between', pairs', p'.trans (p.flatMap_right f')⟩

theorem filter {p : α → Bool} {q : β → Bool} (h : Shuffled R xs ys)
    (same : ∀ x y, R x y → p x = q y) : Shuffled R (xs.filter p) (ys.filter q) := by
  obtain ⟨between, pairs, perm⟩ := h
  refine ⟨between.filter q, List.rel_filter (fun {x y} r => ?_) pairs, perm.filter q⟩
  exact iff_of_eq (congrArg (· = true) (same x y r))

theorem filterMap {f : α → Option γ} {f' : β → Option δ} (h : Shuffled R xs ys)
    (related : ∀ x y, R x y → Option.Rel S (f x) (f' y)) :
    Shuffled S (xs.filterMap f) (ys.filterMap f') := by
  obtain ⟨between, pairs, p⟩ := h
  exact ⟨between.filterMap f', List.rel_filterMap (fun {x y} r => related x y r) pairs,
    p.filterMap f'⟩

/-- Lists whose images are shuffled are shuffled themselves. -/
theorem of_map {f : γ → α} {f' : δ → β} {as : List γ} {bs : List δ}
    (h : Shuffled R (as.map f) (bs.map f')) : Shuffled (fun a b => R (f a) (f' b)) as bs := by
  obtain ⟨between, pairs, p⟩ := h
  have images : List.Forall₂ (fun y b => y = f' b) (bs.map f') bs :=
    List.forall₂_map_left_iff.mpr (List.forall₂_same.mpr fun _ _ => rfl)
  obtain ⟨between', same, p'⟩ := List.perm_comp_forall₂ p images
  refine ⟨between', ?_, p'⟩
  rw [← List.forall₂_map_right_iff, List.forall₂_eq_eq_eq] at same
  rw [same, List.forall₂_map_left_iff, List.forall₂_map_right_iff] at pairs
  exact pairs

/-- Entries that are numbered are shuffled as they are without their numbers. -/
theorem zipIdx (h : Shuffled R xs ys) (i j : Nat) :
    Shuffled (fun a b => R a.1 b.1) (xs.zipIdx i) (ys.zipIdx j) := by
  refine of_map (f := Prod.fst) ?_
  rwa [List.zipIdx_map_fst, List.zipIdx_map_fst]

end Shuffled

/-- **Alike steps over shuffled lists** are alike, with shuffled values. -/
theorem Alike.mapM {ε ε' α β γ δ : Type} {R : α → β → Prop} {S : γ → δ → Prop} {xs : List α}
    {ys : List β} {f : α → Except ε γ} {f' : β → Except ε' δ} (h : Shuffled R xs ys)
    (step : ∀ x y, R x y → Alike S (f x) (f' y)) :
    Alike (Shuffled S) (xs.mapM f) (ys.mapM f') := by
  obtain ⟨between, pairs, p⟩ := h
  exact (mapM_forall₂ pairs step).trans (mapM_perm p f')

end ChipMap
