import ChipMap.Proofs.Order.Shuffled
import Mathlib.Data.List.Nodup

/-!
# Siblings with distinct names

Of siblings with distinct names a name finds one at most, so **a look-up by name finds partners in
two orders of the same siblings** (`Siblings.find?`, `Siblings.findIdx?`).  A number means another
sibling in each order; two numbers that stand for partners are `Partners`, and asking for each
number in turn is asking for each sibling in some order (`Siblings.range`).

### What is load-bearing

The relation between partners keeps names.  A look-up in one list therefore has its answer in the
other one whatever the relation is, and the lemmas serve fields, which are equal in both orders, and
nodes, which are only reordered.
-/

namespace ChipMap

/-- **Two orders of siblings with distinct names.**  How partners are related is a parameter. -/
structure Siblings {α : Type} (R : α → α → Prop) (name : α → String) (xs ys : List α) : Prop where
  /-- Each of the one has its partner among the other. -/
  shuffled : Shuffled R xs ys
  /-- Partners have one name. -/
  named : ∀ x y, R x y → name x = name y
  /-- No two siblings have one name. -/
  distinct : (xs.map name).Nodup

/-- **The numbers of partners** in two lists. -/
def Partners {α : Type} (R : α → α → Prop) (xs ys : List α) (i j : Nat) : Prop :=
  ∃ x y, xs[i]? = some x ∧ ys[j]? = some y ∧ R x y

theorem optionRel_iff {α β : Type} {R : α → β → Prop} {a : Option α} {b : Option β} :
    Option.Rel R a b ↔ a = none ∧ b = none ∨ ∃ x y, a = some x ∧ b = some y ∧ R x y := by
  constructor
  · intro h
    cases h with
    | some r => exact .inr ⟨_, _, rfl, rfl, r⟩
    | none => exact .inl ⟨rfl, rfl⟩
  · rintro (⟨rfl, rfl⟩ | ⟨x, y, rfl, rfl, r⟩)
    · exact .none
    · exact .some r

section Distinct

variable {α : Type} {name : α → String} {xs : List α}

/-- A name that occurs once finds its node. -/
theorem find?_of_nodup (distinct : (xs.map name).Nodup) {x : α} (hx : x ∈ xs) :
    xs.find? (fun y => name y == name x) = some x := by
  cases found : xs.find? fun y => name y == name x with
  | none =>
      have := List.find?_eq_none.mp found x hx
      simp at this
  | some y =>
      have same : name y = name x := by simpa using List.find?_some found
      rw [List.inj_on_of_nodup_map distinct (List.mem_of_find?_eq_some found) hx same]

/-- A name finds the number of the sibling that has it. -/
theorem findIdx_of_nodup (distinct : (xs.map name).Nodup) {i : Nat} (inside : i < xs.length) :
    (xs.findIdx fun y => name y == name xs[i]) = i := by
  rw [List.findIdx_eq inside]
  refine ⟨beq_self_eq_true _, fun j below => beq_false_of_ne fun same => ?_⟩
  have := (List.nodup_iff_injective_get.mp distinct).eq_iff
    (a := ⟨j, by rw [List.length_map]; omega⟩) (b := ⟨i, by rwa [List.length_map]⟩)
  simp only [List.get_eq_getElem, List.getElem_map, Fin.mk.injEq] at this
  exact absurd (this.mp same) (by omega)

/-- The numbers in turn are those of the siblings in turn. -/
theorem range_eq_map (distinct : (xs.map name).Nodup) :
    List.range xs.length = xs.map fun x => xs.findIdx fun y => name y == name x := by
  refine List.ext_getElem (by simp) fun i inside inside' => ?_
  rw [List.getElem_range, List.getElem_map, findIdx_of_nodup distinct]

end Distinct

namespace Siblings

variable {α : Type} {R : α → α → Prop} {name : α → String} {xs ys : List α}

theorem perm_names (h : Siblings R name xs ys) : (xs.map name).Perm (ys.map name) :=
  (h.shuffled.map h.named).perm

theorem distinct_right (h : Siblings R name xs ys) : (ys.map name).Nodup :=
  h.perm_names.nodup_iff.mp h.distinct

theorem any (h : Siblings R name xs ys) (n : String) :
    (xs.any fun x => name x == n) = ys.any fun y => name y == n := by
  have collect (l : List α) : (l.any fun x => name x == n) = (l.map name).any fun m => m == n := by
    rw [List.any_map]
    rfl
  rw [collect, collect, h.perm_names.any_eq]

/-- **A name finds partners or nothing.** -/
theorem find? (h : Siblings R name xs ys) (n : String) :
    Option.Rel R (xs.find? fun x => name x == n) (ys.find? fun y => name y == n) := by
  cases found : xs.find? fun x => name x == n with
  | none =>
      have absent : (ys.any fun y => name y == n) = false := by
        rw [← h.any n, List.any_eq_false]
        exact fun x hx => List.find?_eq_none.mp found x hx
      rw [List.find?_eq_none.mpr fun y hy => List.any_eq_false.mp absent y hy]
      exact .none
  | some x =>
      obtain ⟨y, hy, related⟩ := h.shuffled.exists_right (List.mem_of_find?_eq_some found)
      have hit : name x = n := eq_of_beq (List.find?_some (p := fun x => name x == n) found)
      rw [← hit, h.named x y related, find?_of_nodup h.distinct_right hy]
      exact .some related

/-- A name finds the same entry in two orders of the same siblings. -/
theorem find?_eq (h : Siblings Eq name xs ys) (n : String) :
    (xs.find? fun x => name x == n) = ys.find? fun y => name y == n := by
  rcases optionRel_iff.mp (h.find? n) with ⟨left, right⟩ | ⟨x, _, left, right, rfl⟩
  · rw [left, right]
  · rw [left, right]

/-- The first siblings of a name, if they are there, are partners. -/
theorem partners (h : Siblings R name xs ys) {x y : α} (hx : x ∈ xs) (hy : y ∈ ys) (r : R x y) :
    Partners R xs ys (xs.findIdx fun z => name z == name x)
      (ys.findIdx fun z => name z == name y) := by
  obtain ⟨i, inside, rfl⟩ := List.getElem_of_mem hx
  obtain ⟨j, inside', rfl⟩ := List.getElem_of_mem hy
  rw [findIdx_of_nodup h.distinct inside, findIdx_of_nodup h.distinct_right inside']
  exact ⟨xs[i], ys[j], List.getElem?_eq_getElem inside, List.getElem?_eq_getElem inside', r⟩

/-- **A name finds the numbers of partners or nothing.** -/
theorem findIdx? (h : Siblings R name xs ys) (n : String) :
    Option.Rel (Partners R xs ys) (xs.findIdx? fun x => name x == n)
      (ys.findIdx? fun y => name y == n) := by
  have numbered {l : List α} {z : α} (hz : z ∈ l) : (l.findIdx? fun w => name w == name z) =
      some (l.findIdx fun w => name w == name z) :=
    List.findIdx?_eq_some_iff_findIdx_eq.mpr
      ⟨List.findIdx_lt_length_of_exists ⟨z, hz, beq_self_eq_true _⟩, rfl⟩
  cases found : xs.find? fun x => name x == n with
  | none =>
      have absent := List.find?_eq_none.mp found
      have absent' := h.any n ▸ List.any_eq_false.mpr absent
      rw [List.findIdx?_eq_none_iff.mpr fun x hx => Bool.eq_false_iff.mpr (absent x hx),
        List.findIdx?_eq_none_iff.mpr fun y hy =>
          Bool.eq_false_iff.mpr (List.any_eq_false.mp absent' y hy)]
      exact .none
  | some x =>
      have hx := List.mem_of_find?_eq_some found
      obtain ⟨y, hy, r⟩ := h.shuffled.exists_right hx
      obtain rfl : name x = n := eq_of_beq (List.find?_some (p := fun x => name x == n) found)
      have numbers := Option.Rel.some (h.partners hx hy r)
      rwa [← numbered hx, ← numbered hy, ← h.named x y r] at numbers

/-- Siblings that are changed one by one, and keep their names. -/
theorem map {S : α → α → Prop} {f f' : α → α} (h : Siblings R name xs ys)
    (related : ∀ x y, R x y → S (f x) (f' y)) (named : ∀ x y, S x y → name x = name y)
    (keeps : ∀ x, name (f x) = name x) : Siblings S name (xs.map f) (ys.map f') := by
  refine ⟨h.shuffled.map related, named, ?_⟩
  rw [List.map_map, show name ∘ f = name from funext keeps]
  exact h.distinct

/-- **Siblings behind which others stand** whose names they do not have. -/
theorem append_undefined {base base' : List α} (h : Siblings R name xs ys)
    (h' : Siblings R name base base') :
    Siblings R name (xs ++ base.filter fun b => !xs.any fun o => name o == name b)
      (ys ++ base'.filter fun b => !ys.any fun o => name o == name b) where
  shuffled := h.shuffled.append
    (h'.shuffled.filter fun b b' r => by rw [h.any, h'.named b b' r])
  named := h.named
  distinct := by
    rw [List.map_append]
    refine List.Nodup.append h.distinct (h'.distinct.sublist (List.filter_sublist.map name)) ?_
    intro n hn hn'
    obtain ⟨x, hx, rfl⟩ := List.mem_map.mp hn
    obtain ⟨b, hb, same⟩ := List.mem_map.mp hn'
    have absent := (List.mem_filter.mp hb).2
    rw [Bool.not_eq_true', List.any_eq_false] at absent
    exact absent x hx (by rw [same, beq_self_eq_true])

/-- **Asking for each number in turn** asks for partners in some order. -/
theorem range (h : Siblings R name xs ys) :
    Shuffled (Partners R xs ys) (List.range xs.length) (List.range ys.length) := by
  rw [range_eq_map h.distinct, range_eq_map h.distinct_right]
  exact h.shuffled.members.map fun x y ⟨hx, hy, r⟩ => h.partners hx hy r

end Siblings

end ChipMap
