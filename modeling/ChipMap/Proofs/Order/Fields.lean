import ChipMap.Proofs.Inheritance.FieldRule
import ChipMap.Proofs.Order.Merge

/-!
# Fields in another order

A field takes from the field of a name, so **the fields of a register resolve to the same fields in
any order**, or they do not resolve in any (`resolveFields_alike`).

### What is load-bearing

Fields under way are known by their numbers, and a number means another field in another order.  So
the two resolutions are followed together: the fields that one of them waits for are the partners of
those that the other waits for, and a field is among them exactly when its partner is
(`Siblings.contains_partners`).  A circle is therefore found in both orders or in none.
-/

namespace ChipMap

/-- Numbers are the same exactly when the numbers of their partners are. -/
theorem Siblings.partners_inj {α : Type} {R : α → α → Prop} {name : α → String} {xs ys : List α}
    (h : Siblings R name xs ys) {i j k l : Nat} (hij : Partners R xs ys i j)
    (hkl : Partners R xs ys k l) : i = k ↔ j = l := by
  have number {zs : List α} (distinct : (zs.map name).Nodup) {a b : Nat} {x y : α}
      (hx : zs[a]? = some x) (hy : zs[b]? = some y) : a = b ↔ name x = name y := by
    obtain ⟨ha, rfl⟩ := List.getElem?_eq_some_iff.mp hx
    obtain ⟨hb, rfl⟩ := List.getElem?_eq_some_iff.mp hy
    constructor
    · rintro rfl
      rfl
    · intro same
      rw [← findIdx_of_nodup distinct ha, ← findIdx_of_nodup distinct hb, same]
  obtain ⟨x, y, hx, hy, r⟩ := hij
  obtain ⟨x', y', hx', hy', r'⟩ := hkl
  rw [number h.distinct hx hx', number h.distinct_right hy hy', h.named x y r, h.named x' y' r']

/-- A number is in a list exactly when the number of its partner is among theirs. -/
theorem Siblings.contains_partners {α : Type} {R : α → α → Prop} {name : α → String}
    {xs ys : List α} (h : Siblings R name xs ys) {i j : Nat} (hij : Partners R xs ys i j)
    {is js : List Nat} (all : List.Forall₂ (Partners R xs ys) is js) :
    is.contains i = js.contains j := by
  induction all with
  | nil => rfl
  | @cons k l is js hkl _ ih =>
      rw [List.contains_cons, List.contains_cons, ih, Bool.beq_eq_decide_eq,
        Bool.beq_eq_decide_eq, decide_eq_decide.mpr (h.partners_inj hij hkl)]

namespace Inheritance

open Description

/-- Two orders of the fields of a register, with two orders of those it inherits.  Fields have
nothing inside, so partners are equal. -/
structure FieldScope.Matches (s s' : FieldScope) : Prop where
  own : Siblings Eq Field.name s.own s'.own
  inherited : Siblings Eq Field.name s.inherited s'.inherited

theorem FieldScope.Matches.withInherited {s s' : FieldScope} (h : s.Matches s') (f : Field) :
    s.withInherited f = s'.withInherited f := by
  rw [FieldScope.withInherited, FieldScope.withInherited, fieldNamed?, h.inherited.find?_eq]
  rfl

/-- **A field resolves to the same field** or not at all, by induction over the fields that may
still wait. -/
theorem resolveField_alike {s s' : FieldScope} (h : s.Matches s') (fuel : Nat) :
    ∀ {underway underway' : List Nat} {i j : Nat},
      List.Forall₂ (Partners Eq s.own s'.own) underway underway' → Partners Eq s.own s'.own i j →
        Alike Eq (resolveField s fuel underway i) (resolveField s' fuel underway' j) := by
  induction fuel with
  | zero => exact fun _ _ => .error
  | succ fuel ih =>
      intro underway underway' i j waiting partners
      -- Partners wait together, so a circle is found in both orders at once.
      rw [resolveField, resolveField, h.own.contains_partners partners waiting]
      obtain ⟨own, _, hi, hj, rfl⟩ := id partners
      split
      · exact .error
      · rw [hi, hj]
        dsimp only
        cases own.derivedFrom with
        | none => exact .ok (h.withInherited _)
        | some target =>
            dsimp only
            rcases optionRel_iff.mp (h.own.findIdx? target) with
              ⟨left, right⟩ | ⟨k, l, left, right, found⟩
            · rw [FieldScope.index?, FieldScope.index?, left, right]
              dsimp only
              rw [fieldNamed?, h.inherited.find?_eq target, ← fieldNamed?]
              cases fieldNamed? s'.inherited target with
              | none => exact .error
              | some referent => exact .ok (h.withInherited _)
            · rw [FieldScope.index?, FieldScope.index?, left, right]
              exact (ih (.cons partners waiting) found).bind_eq fun referent =>
                .ok (h.withInherited _)

/-- **All fields of a register resolve to the same fields** or not at all. -/
theorem resolveFields_alike {s s' : FieldScope} (h : s.Matches s') :
    Alike (Siblings Eq Field.name) (resolveFields s) (resolveFields s') := by
  have each : Alike (Shuffled Eq) (resolveFields s) (resolveFields s') := by
    unfold resolveFields
    refine Alike.mapM h.own.range fun i j partners => ?_
    rw [h.own.shuffled.length_eq]
    exact resolveField_alike h _ .nil partners
  refine each.returned.mono fun kept kept' ⟨hkept, _, shuffled⟩ => ?_
  refine ⟨shuffled, fun _ _ => congrArg _, ?_⟩
  rw [names_of_forall₂ Field.name (forall₂_of_range (mapM_eq_ok.mp hkept))
    fun _ _ ⟨_, hown, _, hf⟩ => resolveField_name hown hf]
  exact h.own.distinct

end Inheritance

end ChipMap
