import ChipMap.Proofs.Name.Claim
import ChipMap.Proofs.Sequence
import Mathlib.Data.String.Basic

/-!
# Sorted nodes and renamed nodes

`sortOn` sorts by any comparison that is a total order on keys (`TotalOrder`), and the comparisons
of a map are such orders: numbers, names, and pairs of keys.  `renameInOrder` gives each node a name
that the claims of the other nodes left free.  What both do is read off here once: **sorted by the
key, with the same nodes**, and **renamed, with distinct keys**.

### What is load-bearing

Nodes are renamed in the order of a key, and the list that comes out is in this order too.  A
renamed node is one of the given nodes with another name (`renameInOrder_rel`), and this is an entry
by entry relation with the sorted list, not with the given one.

Comparisons are functions to truth values, as the sort takes them.  `TotalOrder` says of such a
function what the sort needs, and pairs get it from their parts (`TotalOrder.lexLe`).
-/

namespace ChipMap.Name

/-- A comparison that is a total order.  Two keys that are not told apart are the same. -/
structure TotalOrder {κ : Type} (le : κ → κ → Bool) : Prop where
  trans : ∀ {a b c}, le a b = true → le b c = true → le a c = true
  total : ∀ a b, le a b = true ∨ le b a = true
  antisymm : ∀ {a b}, le a b = true → le b a = true → a = b

theorem natLe_totalOrder : TotalOrder natLe where
  trans h h' := by
    simp only [natLe, decide_eq_true_eq] at *
    omega
  total a b := by
    simp only [natLe, decide_eq_true_eq]
    omega
  antisymm h h' := by
    simp only [natLe, decide_eq_true_eq] at *
    omega

theorem textLe_iff {a b : String} : textLe a b = true ↔ a ≤ b := by
  simp only [textLe, Bool.not_eq_true', decide_eq_false_iff_not, not_lt]

theorem textLe_totalOrder : TotalOrder textLe where
  trans h h' := textLe_iff.mpr (le_trans (textLe_iff.mp h) (textLe_iff.mp h'))
  total a b := by
    simp only [textLe_iff]
    exact le_total a b
  antisymm h h' := le_antisymm (textLe_iff.mp h) (textLe_iff.mp h')

section Pairs

variable {α β : Type} [LinearOrder α] [DecidableEq α] [DecidableLT α] {le : β → β → Bool}

theorem lexLe_iff {a b : α × β} :
    lexLe le a b = true ↔ a.1 < b.1 ∨ a.1 = b.1 ∧ le a.2 b.2 = true := by
  simp only [lexLe, Bool.or_eq_true, Bool.and_eq_true, decide_eq_true_eq]

/-- **Pairs in lexicographic order** are ordered when both parts are.  The first part has the order
of its type. -/
theorem TotalOrder.lexLe (h : TotalOrder le) : TotalOrder (lexLe (α := α) le) where
  trans {a b c} hab hbc := by
    rw [lexLe_iff] at *
    rcases hab with hab | ⟨hab, hab'⟩
    · rcases hbc with hbc | ⟨hbc, -⟩
      · exact .inl (hab.trans hbc)
      · exact .inl (hbc ▸ hab)
    · rcases hbc with hbc | ⟨hbc, hbc'⟩
      · exact .inl (hab ▸ hbc)
      · exact .inr ⟨hab.trans hbc, h.trans hab' hbc'⟩
  total a b := by
    rw [lexLe_iff, lexLe_iff]
    rcases lt_trichotomy a.1 b.1 with lt | same | gt
    · exact .inl (.inl lt)
    · rcases h.total a.2 b.2 with le | ge
      · exact .inl (.inr ⟨same, le⟩)
      · exact .inr (.inr ⟨same.symm, ge⟩)
    · exact .inr (.inl gt)
  antisymm {a b} hab hba := by
    rw [lexLe_iff] at *
    rcases hab with hab | ⟨hab, hab'⟩
    · rcases hba with hba | ⟨hba, -⟩
      · exact absurd hab (lt_asymm hba)
      · exact absurd hab (hba ▸ lt_irrefl _)
    · rcases hba with hba | ⟨-, hba'⟩
      · exact absurd hba (hab ▸ lt_irrefl _)
      · exact Prod.ext hab (h.antisymm hab' hba')

end Pairs

section Sorted

variable {α κ : Type} {le : κ → κ → Bool} {key : α → κ} {items : List α}

theorem mem_sortOn {x : α} : x ∈ sortOn le key items ↔ x ∈ items :=
  (sortOn_perm le key items).mem_iff

/-- **A sorted list is in the order of its key**, and not only from one entry to the next. -/
theorem sortOn_pairwise (h : TotalOrder le) :
    (sortOn le key items).Pairwise fun a b => le (key a) (key b) = true := by
  refine List.pairwise_mergeSort ?_ ?_ items
  · exact fun a b c => h.trans
  · intro a b
    rw [Bool.or_eq_true]
    exact h.total (key a) (key b)

end Sorted

/-! ### Renamed nodes -/

section Renamed

variable {α κ : Type} {le : κ → κ → Bool} {key : α → κ} {name : α → String}
variable {rename : α → String → α} {items : List α}

/-- **Each node is one of the given ones with another name**, which is tied to the given name as
every claim is to its wanted one. -/
theorem renameInOrder_rel {R : String → String → Prop}
    (each : ∀ (s : Claimed) wanted, R wanted (s.choose wanted)) :
    List.Forall₂ (fun a x => ∃ n, x = rename a n ∧ R (name a) n)
      (sortOn le key items) (renameInOrder le key name rename items) := by
  have given := Claimed.claimList_forall₂ each .empty ((sortOn le key items).map name)
  unfold renameInOrder claimAll
  dsimp only
  generalize sortOn le key items = ordered at given
  generalize Claimed.empty.claimList (ordered.map name) = names at given
  induction ordered generalizing names with
  | nil => exact .nil
  | cons a rest ih =>
      cases given with
      | cons head tail => exact .cons ⟨_, rfl, head⟩ (ih _ tail)

/-- The name of each node has the form of an identifier when the given name has.  It is the general
law with that relation between names. -/
theorem renameInOrder_forall₂ :
    List.Forall₂ (fun a x => ∃ n, x = rename a n ∧ (IsIdentifier (name a) → IsIdentifier n))
      (sortOn le key items) (renameInOrder le key name rename items) :=
  renameInOrder_rel (R := fun wanted given => IsIdentifier wanted → IsIdentifier given)
    fun s _ h => h.choose s

/-- What holds of every given node under every name that it may get holds of the renamed
nodes. -/
theorem forall_mem_renameInOrder {P : α → Prop}
    (h : ∀ a ∈ items, ∀ n, (IsIdentifier (name a) → IsIdentifier n) → P (rename a n)) :
    ∀ x ∈ renameInOrder le key name rename items, P x := by
  have each := @renameInOrder_forall₂ α κ le key name rename items
  intro x hx
  obtain ⟨i, hi, rfl⟩ := List.getElem_of_mem hx
  have hi' : i < (sortOn le key items).length := each.length_eq ▸ hi
  obtain ⟨n, hn, hid⟩ := (List.forall₂_iff_get.mp each).2 i hi' hi
  simp only [List.get_eq_getElem] at hn hid
  rw [hn]
  exact h _ (mem_sortOn.mp (List.getElem_mem hi')) n hid

/-- **Every entry is renamed**, and keeps what no name takes from it.  So no node gets lost among
its siblings. -/
theorem exists_mem_renameInOrder {P : α → Prop} {a : α} (ha : a ∈ items) (h : ∀ n, P (rename a n)) :
    ∃ x ∈ renameInOrder le key name rename items, P x := by
  have each := @renameInOrder_forall₂ α κ le key name rename items
  obtain ⟨_, hx, n, rfl, -⟩ := exists_of_forall₂ each (mem_sortOn.mpr ha)
  exact ⟨_, hx, h n⟩

/-- The names of the renamed nodes are the ones given out, in the order of the claims. -/
theorem map_name_renameInOrder (named : ∀ a n, name (rename a n) = n) :
    (renameInOrder le key name rename items).map name =
      claimAll ((sortOn le key items).map name) := by
  unfold renameInOrder
  dsimp only
  have length : (claimAll ((sortOn le key items).map name)).length =
      (sortOn le key items).length := by simp [claimAll]
  generalize claimAll ((sortOn le key items).map name) = names at length
  generalize sortOn le key items = ordered at length
  induction ordered generalizing names with
  | nil =>
      obtain rfl := List.length_eq_zero_iff.mp length
      rfl
  | cons a rest ih =>
      cases names with
      | nil => simp at length
      | cons n names =>
          rw [List.zipWith_cons_cons, List.map_cons, named, ih names (by simpa using length)]

/-- **Renamed nodes have distinct keys**, whatever their names were before. -/
theorem renameInOrder_nodup (named : ∀ a n, name (rename a n) = n) :
    ((renameInOrder le key name rename items).map fun x => distinctKey (name x)).Nodup := by
  have keys := claimAll_nodup ((sortOn le key items).map name)
  rw [← map_name_renameInOrder named, List.map_map] at keys
  exact keys

end Renamed

end ChipMap.Name
