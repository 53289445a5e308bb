import ChipMap.Proofs.Name.Order
import ChipMap.Proofs.Order.Shuffled
import Mathlib.Data.List.Nodup

/-!
# Sorting forgets an order

A list whose entries have distinct keys is **sorted to the same list from any order**
(`sortOn_perm_congr`).  Where entries share a key, sorting keeps the order they stand in
(`filter_sortOn`), and it keeps nothing else: **two lists are sorted to the same list when the
entries of each key stand in the same order in both** (`sortOn_congr`).

### What is load-bearing

A list that is in the order of a key is known when the entries of each key are known
(`eq_of_filter_eq`), so what is said of sorted lists is said of the entries of one key at a time.

Renaming goes through a sorted list, so each law of sorting has one of renaming behind it.  Entries
that are mapped to something else, or related to other entries, are renamed side by side as long as
keys and names agree (`map_renameInOrder`, `renameInOrder_related`).
-/

namespace ChipMap.Name

section Sorted

variable {α κ : Type} {le : κ → κ → Bool} {key : α → κ} {xs ys : List α}

/-- Sorted lists with the same entries have the same keys, one by one. -/
theorem map_key_sortOn (h : TotalOrder le) (p : xs.Perm ys) :
    (sortOn le key xs).map key = (sortOn le key ys).map key := by
  have sorted (zs : List α) :
      ((sortOn le key zs).map key).Pairwise fun a b => le a b = true :=
    List.pairwise_map.mpr (sortOn_pairwise h)
  have perm := (sortOn_perm le key xs).trans (p.trans (sortOn_perm le key ys).symm)
  exact (perm.map key).eq_of_pairwise (fun _ _ _ _ ab ba => h.antisymm ab ba) (sorted xs) (sorted ys)

/-- Entries are sorted by what they are mapped to. -/
theorem map_sortOn {β : Type} (f : β → α) (zs : List β) :
    (sortOn le (fun z => key (f z)) zs).map f = sortOn le key (zs.map f) :=
  List.map_mergeSort fun _ _ _ _ => rfl

/-- **A list with distinct keys is sorted to the same list from any order.**  The sort need not be
stable for that. -/
theorem sortOn_perm_congr (h : TotalOrder le) (p : xs.Perm ys) (distinct : (xs.map key).Nodup) :
    sortOn le key xs = sortOn le key ys := by
  have perm := (sortOn_perm le key xs).trans (p.trans (sortOn_perm le key ys).symm)
  refine perm.eq_of_pairwise (fun a b ha hb ab ba => ?_) (sortOn_pairwise h) (sortOn_pairwise h)
  refine List.inj_on_of_nodup_map distinct (mem_sortOn.mp ha) ?_ (h.antisymm ab ba)
  exact p.symm.subset (mem_sortOn.mp hb)

variable [DecidableEq κ]

/-- **The entries of one key keep their order.** -/
theorem filter_sortOn (h : TotalOrder le) (k : κ) :
    (sortOn le key xs).filter (fun x => decide (key x = k)) =
      xs.filter fun x => decide (key x = k) := by
  have same : (xs.filter fun x => decide (key x = k)).Pairwise fun a b =>
      le (key a) (key b) = true := by
    refine List.pairwise_filter.mpr (List.pairwise_of_forall fun a b ha hb => ?_)
    rw [of_decide_eq_true ha, of_decide_eq_true hb]
    exact (h.total k k).elim id id
  have inside : (xs.filter fun x => decide (key x = k)).Sublist (sortOn le key xs) := by
    refine @List.sublist_mergeSort α (fun a b => le (key a) (key b)) xs (fun _ _ _ => h.trans)
      (fun a b => ?_) _ same List.filter_sublist
    rw [Bool.or_eq_true]
    exact h.total (key a) (key b)
  have kept := inside.filter fun x => decide (key x = k)
  rw [List.filter_filter] at kept
  simp only [Bool.and_self] at kept
  exact (kept.eq_of_length ((sortOn_perm le key xs).filter _).length_eq.symm).symm

/-- Each entry of a list is among those of its own key, so lists with the same entries of each key
have the same entries. -/
theorem mem_iff_of_filter_eq
    (same : ∀ k, xs.filter (fun x => decide (key x = k)) = ys.filter fun x => decide (key x = k))
    {z : α} : z ∈ xs ↔ z ∈ ys := by
  have own := congrArg (z ∈ ·) (same (key z))
  simpa using own

/-- **A list in the order of a key is known** when the entries of each key are, by induction on the
list: the first entry is the first one of its key. -/
theorem eq_of_filter_eq (h : TotalOrder le)
    (sorted : xs.Pairwise fun a b => le (key a) (key b) = true)
    (sorted' : ys.Pairwise fun a b => le (key a) (key b) = true)
    (same : ∀ k, xs.filter (fun x => decide (key x = k)) = ys.filter fun x => decide (key x = k)) :
    xs = ys := by
  induction xs generalizing ys with
  | nil =>
      refine (List.eq_nil_iff_forall_not_mem.mpr fun z hz => ?_).symm
      exact List.not_mem_nil ((mem_iff_of_filter_eq same).mpr hz)
  | cons a xs ih =>
      cases ys with
      | nil => exact absurd ((mem_iff_of_filter_eq same).mp List.mem_cons_self) List.not_mem_nil
      | cons b ys =>
          obtain ⟨first, later⟩ := List.pairwise_cons.mp sorted
          obtain ⟨first', later'⟩ := List.pairwise_cons.mp sorted'
          have least {z : α} {zs : List α} (first : ∀ x ∈ zs, le (key z) (key x) = true) {x : α}
              (hx : x ∈ z :: zs) : le (key z) (key x) = true := by
            rcases List.mem_cons.mp hx with rfl | hx
            · exact (h.total _ _).elim id id
            · exact first x hx
          -- Each head is in both lists, so it is the least of both.
          have key_eq : key a = key b :=
            h.antisymm (least first ((mem_iff_of_filter_eq same).mpr List.mem_cons_self))
              (least first' ((mem_iff_of_filter_eq same).mp List.mem_cons_self))
          -- Of this key the heads are the first entries, and these are the same.
          have own := same (key b)
          rw [List.filter_cons_of_pos (by simpa using key_eq),
            List.filter_cons_of_pos (by simp)] at own
          obtain ⟨rfl, -⟩ := List.cons.inj own
          have rest : ∀ k, xs.filter (fun x => decide (key x = k)) =
              ys.filter fun x => decide (key x = k) := by
            intro k
            have both := same k
            by_cases here : key a = k
            · rw [List.filter_cons_of_pos (by simpa using here),
                List.filter_cons_of_pos (by simpa using here)] at both
              exact (List.cons.inj both).2
            · rwa [List.filter_cons_of_neg (by simpa using here),
                List.filter_cons_of_neg (by simpa using here)] at both
          rw [ih later later' rest]

/-- **Lists in which the entries of each key stand in the same order** are sorted to the same
list. -/
theorem sortOn_congr (h : TotalOrder le)
    (same : ∀ k, xs.filter (fun x => decide (key x = k)) = ys.filter fun x => decide (key x = k)) :
    sortOn le key xs = sortOn le key ys := by
  refine eq_of_filter_eq h (sortOn_pairwise h) (sortOn_pairwise h) fun k => ?_
  rw [filter_sortOn h, filter_sortOn h, same]

/-- **The first entry of a key** is the first one of it before sorting too. -/
theorem getElem?_sortOn [BEq κ] [LawfulBEq κ] (h : TotalOrder le) (k : κ) :
    (sortOn le key xs)[((sortOn le key xs).map key).idxOf k]? =
      xs.find? fun x => decide (key x = k) := by
  have first (zs : List α) :
      zs[(zs.map key).idxOf k]? = zs.find? fun x => decide (key x = k) := by
    induction zs with
    | nil => rfl
    | cons z zs ih =>
        by_cases here : key z = k
        · simp [here]
        · simp [here, List.idxOf_cons_ne, ih]
  rw [first, ← List.head?_filter, filter_sortOn h, List.head?_filter]

/-- **What stands in order before sorting** stands in order behind it, among the entries of a
key. -/
theorem sortOn_pairwise_of_pairwise (h : TotalOrder le) {R : α → α → Prop} (ordered : xs.Pairwise R) :
    (sortOn le key xs).Pairwise fun a b => le (key a) (key b) = true ∧ (key a = key b → R a b) := by
  rw [List.pairwise_iff_forall_sublist]
  intro a b order
  refine ⟨List.pairwise_iff_forall_sublist.mp (sortOn_pairwise h) order, fun same => ?_⟩
  have inside := order.filter fun x => decide (key x = key b)
  rw [filter_sortOn h, List.filter_eq_self.mpr (by simp [same])] at inside
  exact List.pairwise_iff_forall_sublist.mp ordered (inside.trans List.filter_sublist)

end Sorted

theorem map_eq_of_forall₂ {α β γ : Type} {f : α → γ} {g : β → γ} {xs : List α} {ys : List β}
    (h : List.Forall₂ (fun x y => f x = g y) xs ys) : xs.map f = ys.map g := by
  rw [← List.forall₂_eq_eq_eq]
  exact List.forall₂_map_left_iff.mpr (List.forall₂_map_right_iff.mpr h)

section Renamed

variable {α β κ : Type} {le : κ → κ → Bool} {key : α → κ} {name : α → String}
variable {rename : α → String → α}

/-- Nodes that are sorted to the same list, be it by other keys, are renamed to the same list. -/
theorem renameInOrder_congr {κ' : Type} {le' : κ' → κ' → Bool} {key' : α → κ'} {xs ys : List α}
    (same : sortOn le key xs = sortOn le' key' ys) :
    renameInOrder le key name rename xs = renameInOrder le' key' name rename ys := by
  rw [renameInOrder, same, renameInOrder]

/-- **What nodes are mapped to is renamed** like the nodes. -/
theorem map_renameInOrder {f : β → α} {renameIn : β → String → β}
    (commutes : ∀ z n, f (renameIn z n) = rename (f z) n) (zs : List β) :
    (renameInOrder le (fun z => key (f z)) (fun z => name (f z)) renameIn zs).map f =
      renameInOrder le key name rename (zs.map f) := by
  unfold renameInOrder
  dsimp only
  rw [← map_sortOn, List.map_map, List.map_zipWith, List.zipWith_map_left]
  simp only [commutes]
  rfl

/-- **What renaming keeps** is there as often as before. -/
theorem renameInOrder_kept {f : α → β} (kept : ∀ x n, f (rename x n) = f x) (xs : List α) :
    ((renameInOrder le key name rename xs).map f).Perm (xs.map f) := by
  have each : List.Forall₂ (fun a x => f a = f x) (sortOn le key xs)
      (renameInOrder le key name rename xs) :=
    renameInOrder_forall₂.imp fun a x ⟨n, renamed, _⟩ => renamed ▸ (kept a n).symm
  rw [← map_eq_of_forall₂ each]
  exact (sortOn_perm le key xs).map f

/-- **Renaming shuffles a list**: each entry is there under its new name. -/
theorem renameInOrder_shuffled {R : String → String → Prop}
    (each : ∀ (s : Claimed) wanted, R wanted (s.choose wanted)) (xs : List α) :
    Shuffled (fun a x => ∃ n, x = rename a n ∧ R (name a) n) xs
      (renameInOrder le key name rename xs) :=
  List.perm_comp_forall₂ (sortOn_perm le key xs).symm (renameInOrder_rel each)

end Renamed

/-! ### Related lists -/

section Related

variable {α β κ : Type} {le : κ → κ → Bool} {R : α → β → Prop} {xs : List α} {ys : List β}

/-- Related lists are the two sides of one list of related pairs. -/
theorem exists_pairs (h : List.Forall₂ R xs ys) : ∃ pairs : List { z : α × β // R z.1 z.2 },
    pairs.map (·.1.1) = xs ∧ pairs.map (·.1.2) = ys := by
  induction h with
  | nil => exact ⟨[], rfl, rfl⟩
  | @cons x y _ _ head _ ih =>
      obtain ⟨pairs, left, right⟩ := ih
      exact ⟨⟨(x, y), head⟩ :: pairs, congrArg (x :: ·) left, congrArg (y :: ·) right⟩

/-- **Related entries of equal keys** are sorted side by side. -/
theorem sortOn_related {key : α → κ} {key' : β → κ} (keys : ∀ x y, R x y → key x = key' y)
    (h : List.Forall₂ R xs ys) : List.Forall₂ R (sortOn le key xs) (sortOn le key' ys) := by
  obtain ⟨pairs, rfl, rfl⟩ := exists_pairs h
  have same : (fun z : { z : α × β // R z.1 z.2 } => key z.1.1) = fun z => key' z.1.2 :=
    funext fun z => keys _ _ z.2
  rw [← map_sortOn, ← map_sortOn, same, List.forall₂_map_left_iff, List.forall₂_map_right_iff]
  exact List.forall₂_same.mpr fun z _ => z.2

/-- **Related entries of equal keys and names** are renamed side by side. -/
theorem renameInOrder_related {key : α → κ} {key' : β → κ} {name : α → String}
    {name' : β → String} {rename : α → String → α} {rename' : β → String → β}
    (keys : ∀ x y, R x y → key x = key' y) (names : ∀ x y, R x y → name x = name' y)
    (renames : ∀ x y n, R x y → R (rename x n) (rename' y n)) (h : List.Forall₂ R xs ys) :
    List.Forall₂ R (renameInOrder le key name rename xs)
      (renameInOrder le key' name' rename' ys) := by
  obtain ⟨pairs, rfl, rfl⟩ := exists_pairs h
  let both (z : { z : α × β // R z.1 z.2 }) (n : String) : { z : α × β // R z.1 z.2 } :=
    ⟨(rename z.1.1 n, rename' z.1.2 n), renames _ _ n z.2⟩
  have sameKeys : (fun z : { z : α × β // R z.1 z.2 } => key z.1.1) = fun z => key' z.1.2 :=
    funext fun z => keys _ _ z.2
  have sameNames : (fun z : { z : α × β // R z.1 z.2 } => name z.1.1) = fun z => name' z.1.2 :=
    funext fun z => names _ _ z.2
  have left (z : { z : α × β // R z.1 z.2 }) (n : String) : (both z n).1.1 = rename z.1.1 n := rfl
  have right (z : { z : α × β // R z.1 z.2 }) (n : String) : (both z n).1.2 = rename' z.1.2 n := rfl
  rw [← map_renameInOrder left, ← map_renameInOrder right, sameKeys, sameNames,
    List.forall₂_map_left_iff, List.forall₂_map_right_iff]
  exact List.forall₂_same.mpr fun z _ => z.2

end Related

end ChipMap.Name
