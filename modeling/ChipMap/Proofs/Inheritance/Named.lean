import ChipMap.Proofs.Inheritance.Rule

/-!
# Children by name behind an append

A resolved node has its own children first and those that only the base has behind them.  A name
finds an own child when the node defines the name, and else **what it finds in the whole base**: the
children left out of the base have names that the node defines, and those that are there twice come
later.

### What is load-bearing

This is said once for lists of anything with a name (`find?_append_undefined`), and fields and
children are two uses of it.  They differ in what is taken over: all children, but of the fields the
first one of each name.  For a name that is looked up there is no difference, because the first one
is found either way (`fieldNamed?_firstOfEachName`).
-/

namespace ChipMap.Inheritance

open Description

section Names

variable {α : Type} (nameOf : α → String)

theorem any_name_congr {own kept : List α} (names : kept.map nameOf = own.map nameOf)
    (name : String) :
    (kept.any fun x => nameOf x == name) = own.any fun x => nameOf x == name := by
  have collect (l : List α) :
      (l.any fun x => nameOf x == name) = (l.map nameOf).any fun n => n == name := by
    rw [List.any_map]
    rfl
  rw [collect, collect, names]

/-- Children that are resolved one by one keep the names of the own ones. -/
theorem names_of_forall₂ {R : α → α → Prop} {own kept : List α} (h : List.Forall₂ R own kept)
    (each : ∀ o x, R o x → nameOf x = nameOf o) : kept.map nameOf = own.map nameOf := by
  induction h with
  | nil => rfl
  | cons head _ ih => rw [List.map_cons, List.map_cons, each _ _ head, ih]

/-- What a node does not define is found in the undefined part of the base as in the
whole base. -/
theorem find?_undefined {own : List α} {name : String}
    (absent : (own.any fun x => nameOf x == name) = false) (base : List α) :
    (base.filter fun b => !own.any fun o => nameOf o == nameOf b).find?
        (fun x => nameOf x == name) = base.find? fun x => nameOf x == name := by
  rw [List.find?_filter]
  congr 1
  funext b
  cases hit : nameOf b == name with
  | false => simp
  | true => simp [eq_of_beq hit, absent]

/-- The number of a name among the own children is its number among the resolved ones, since these
keep their names and their order. -/
theorem find?_of_findIdx? {own kept : List α} (names : kept.map nameOf = own.map nameOf)
    {name : String} {i : Nat} (found : own.findIdx? (fun x => nameOf x == name) = some i) :
    (kept.find? fun x => nameOf x == name) = kept[i]? := by
  induction own generalizing kept i with
  | nil => simp at found
  | cons o own ih =>
      cases kept with
      | nil => simp at names
      | cons k kept =>
          obtain ⟨head, tail⟩ := List.cons.inj names
          rw [List.findIdx?_cons] at found
          rw [List.find?_cons, head]
          cases hit : nameOf o == name with
          | true =>
              rw [hit] at found
              obtain rfl := Option.some.inj found
              rfl
          | false =>
              rw [hit] at found
              obtain ⟨j, hj, rfl⟩ := Option.map_eq_some_iff.mp found
              exact ih tail hj

/-- **A name among own and undefined children**: an own child, or else what the whole
base has.  Of the undefined ones `rest` only what a name finds in them matters. -/
theorem find?_append_undefined {own kept base rest : List α}
    (names : kept.map nameOf = own.map nameOf) (name : String)
    (same : rest.find? (fun x => nameOf x == name) =
      (base.filter fun b => !own.any fun o => nameOf o == nameOf b).find?
        fun x => nameOf x == name) :
    (kept ++ rest).find? (fun x => nameOf x == name) =
      match own.findIdx? fun x => nameOf x == name with
      | some i => kept[i]?
      | none => base.find? fun x => nameOf x == name := by
  rw [List.find?_append]
  cases found : own.findIdx? fun x => nameOf x == name with
  | some i =>
      have inside : i < kept.length := by
        have := (List.findIdx?_eq_some_iff_getElem.mp found).1
        have := congrArg List.length names
        simp only [List.length_map] at this
        omega
      rw [find?_of_findIdx? nameOf names found]
      simp only [List.getElem?_eq_getElem inside, Option.some_or]
  | none =>
      have absent : (own.any fun x => nameOf x == name) = false := by
        rw [List.any_eq_false]
        intro x hx
        exact Bool.eq_false_iff.mp (List.findIdx?_eq_none_iff.mp found x hx)
      have missing : (kept.find? fun x => nameOf x == name) = none := by
        rw [List.find?_eq_none]
        have nowhere := (any_name_congr nameOf names name).trans absent
        exact fun x hx => by simpa using List.any_eq_false.mp nowhere x hx
      rw [missing, Option.none_or, same, find?_undefined nameOf absent]

end Names

/-! ### Fields and children -/

theorem undefinedFields_congr {own kept : List Field}
    (names : kept.map (·.name) = own.map (·.name)) (base : List Field) :
    undefinedFields kept base = undefinedFields own base := by
  unfold undefinedFields
  congr 1
  funext b
  exact congrArg not (any_name_congr Field.name names b.name)

/-- A name finds the first field of the name, so it does not matter whether the others are there. -/
theorem fieldNamed?_firstOfEachName (fields : List Field) (name : String) :
    fieldNamed? (firstOfEachName fields) name = fieldNamed? fields name := by
  unfold fieldNamed?
  induction fields with
  | nil => rfl
  | cons f rest ih =>
      rw [firstOfEachName, List.find?_cons, List.find?_cons]
      cases hit : f.name == name with
      | true => rfl
      | false =>
          dsimp only
          rw [← ih, List.find?_filter]
          congr 1
          funext g
          cases named : g.name == name with
          | false => simp
          | true =>
              have other : name ≠ f.name := fun same => by simp [same] at hit
              simp [eq_of_beq named, other]

theorem length_firstOfEachName_le (fields : List Field) :
    (firstOfEachName fields).length ≤ fields.length := by
  induction fields with
  | nil => exact Nat.le_refl 0
  | cons f rest ih =>
      rw [firstOfEachName, List.length_cons, List.length_cons]
      have := List.length_filter_le (fun g => g.name != f.name) (firstOfEachName rest)
      omega

/-- **A name among the fields of a resolved register.** -/
theorem fieldNamed?_append_firsts {own kept : List Field}
    (names : kept.map (·.name) = own.map (·.name)) (base : List Field) (name : String) :
    fieldNamed? (kept ++ firstOfEachName (undefinedFields own base)) name =
      match own.findIdx? fun f => f.name == name with
      | some i => kept[i]?
      | none => fieldNamed? base name :=
  find?_append_undefined Field.name names name (fieldNamed?_firstOfEachName _ name)

/-- **A name among the children of a resolved node.** -/
theorem itemNamed?_append_undefined {own kept : List Item}
    (names : kept.map (·.name) = own.map (·.name)) (base : List Item) (name : String) :
    itemNamed? (kept ++ undefinedItems own base) name =
      match own.findIdx? fun x => x.name == name with
      | some i => kept[i]?
      | none => itemNamed? base name :=
  find?_append_undefined Item.name names name rfl

/-- The first fields of each name are all fields exactly when the names are distinct.  This is where
the two rules for registers differ. -/
theorem firstOfEachName_eq_self_iff (fields : List Field) :
    firstOfEachName fields = fields ↔ (fields.map (·.name)).Nodup := by
  induction fields with
  | nil => simp [firstOfEachName]
  | cons f rest ih =>
      rw [firstOfEachName, List.cons.injEq, List.map_cons, List.nodup_cons, ← ih]
      constructor
      · rintro ⟨-, same⟩
        -- A filter that leaves a list as long as it can be drops nothing.
        have longer := List.length_filter_le (fun g => g.name != f.name) (firstOfEachName rest)
        rw [same] at longer
        have whole : firstOfEachName rest = rest := by
          refine (List.filter_eq_self.mpr (List.length_filter_eq_length_iff.mp ?_)).symm.trans same
          have := length_firstOfEachName_le rest
          rw [same]
          omega
        refine ⟨?_, whole⟩
        intro mem
        obtain ⟨g, hg, named⟩ := List.mem_map.mp mem
        rw [← same] at hg
        simpa [named] using (List.mem_filter.mp hg).2
      · rintro ⟨fresh, same⟩
        refine ⟨rfl, ?_⟩
        rw [same, List.filter_eq_self]
        intro g hg
        have other : g.name ≠ f.name := fun named => fresh (named ▸ List.mem_map_of_mem hg)
        simpa using other

/-- Leaving out a name and keeping the first field of each name commute. -/
theorem firstOfEachName_filter (fields : List Field) (name : String) :
    firstOfEachName (fields.filter fun g => g.name != name) =
      (firstOfEachName fields).filter fun g => g.name != name := by
  induction fields with
  | nil => rfl
  | cons f rest ih =>
      rw [List.filter_cons, firstOfEachName, List.filter_cons]
      cases other : f.name != name with
      | true =>
          simp only [if_true]
          rw [firstOfEachName, ih, List.filter_comm]
      | false =>
          have same : f.name = name := by simpa using other
          simp only [Bool.false_eq_true, if_false]
          rw [ih, same, List.filter_filter]
          simp only [Bool.and_self]

theorem undefinedFields_append_singleton (own base : List Field) (f : Field) :
    undefinedFields (own ++ [f]) base =
      (undefinedFields own base).filter fun g => g.name != f.name := by
  unfold undefinedFields
  rw [List.filter_filter]
  congr 1
  funext b
  rw [List.any_append, Bool.not_or, Bool.and_comm]
  simp [bne, Bool.beq_comm]

/-- The fields behind the own ones are the first undefined one of each name. -/
theorem appendNewNames_eq (own base : List Field) :
    appendNewNames own base = own ++ firstOfEachName (undefinedFields own base) := by
  induction base generalizing own with
  | nil => simp [appendNewNames, undefinedFields, firstOfEachName]
  | cons f rest ih =>
      rw [appendNewNames, undefinedFields, List.filter_cons]
      cases known : own.any fun o => o.name == f.name with
      | true =>
          simp only [Bool.not_true, Bool.false_eq_true, if_false, if_true]
          exact ih own
      | false =>
          simp only [Bool.not_false, Bool.false_eq_true, if_false, if_true]
          rw [ih, undefinedFields_append_singleton, firstOfEachName_filter, firstOfEachName,
            List.append_assoc]
          rfl

theorem takesFirsts (own base : List Field) :
    TakesFirsts own base (firstOfEachName (undefinedFields own base)) where
  firsts := rfl
  all_iff := firstOfEachName_eq_self_iff _

end ChipMap.Inheritance
