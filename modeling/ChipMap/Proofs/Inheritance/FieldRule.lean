import ChipMap.Proofs.Inheritance.Attributes
import ChipMap.Proofs.Inheritance.Memory
import ChipMap.Proofs.Inheritance.Named

/-!
# Fields follow the rule

A field that derives from another one is resolved behind it, and the ones that wait are remembered
to find cycles.  Neither matters for a field that resolves: its value is the same whichever fields
wait for it and however deep the resolution may still go (`resolveField_unique`).  So **the referent
of a field is the field of its name in the resolved register** (`fieldsFollow_of_resolveFields`).

### What is load-bearing

A reference of a field looks among the own fields first and among the inherited ones then, as a name
does in the resolved register.  That both find the same is a matter of the order of fields there:
the own ones come first and keep their names, and of the inherited ones those that the register does
not define.
-/

namespace ChipMap.Inheritance

open Description

/-- A field that has a referent at all, its referent resolved to `value`.  An own field hides an
inherited one of its name. -/
def FieldScope.Referent (s : FieldScope) (resolved : Nat → Except ReferenceFault Field)
    (target : String) (value : Field) : Prop :=
  (∃ j, s.index? target = some j ∧ resolved j = .ok value) ∨
    s.index? target = none ∧ fieldNamed? s.inherited target = some value

/-- **One field resolved**: it takes from its referent first and from the inherited field of its
name then.  Without a reference only the second source is left. -/
theorem resolveField_cases {s : FieldScope} {fuel i : Nat} {underway : List Nat} {f : Field}
    (h : resolveField s (fuel + 1) underway i = .ok f) :
    ∃ own, s.own[i]? = some own ∧
      ((own.derivedFrom = none ∧ f = s.withInherited { own with derivedFrom := none }) ∨
        ∃ target referent, own.derivedFrom = some target ∧
          s.Referent (resolveField s fuel (i :: underway)) target referent ∧
          f = s.withInherited (own.orElse referent)) := by
  rw [resolveField] at h
  split at h
  · cases h
  · cases hown : s.own[i]? with
    | none =>
        rw [hown] at h
        cases h
    | some own =>
        rw [hown] at h
        refine ⟨own, rfl, ?_⟩
        dsimp only at h
        cases hderived : own.derivedFrom with
        | none =>
            rw [hderived] at h
            exact .inl ⟨rfl, (Except.ok.inj h).symm⟩
        | some target =>
            rw [hderived] at h
            dsimp only at h
            cases hindex : s.index? target with
            | some j =>
                rw [hindex] at h
                obtain ⟨referent, hreferent, h⟩ := bind_eq_ok.mp h
                exact .inr ⟨target, referent, rfl, .inl ⟨j, hindex, hreferent⟩,
                  (Except.ok.inj h).symm⟩
            | none =>
                rw [hindex] at h
                dsimp only at h
                cases hinherited : fieldNamed? s.inherited target with
                | none =>
                    rw [hinherited] at h
                    cases h
                | some referent =>
                    rw [hinherited] at h
                    exact .inr ⟨target, referent, rfl, .inr ⟨hindex, hinherited⟩,
                      (Except.ok.inj h).symm⟩

/-- **A field has one value**, whichever fields wait for it. -/
theorem resolveField_unique {s : FieldScope} {fuel fuel' i : Nat} {underway underway' : List Nat}
    {f g : Field} (hf : resolveField s fuel underway i = .ok f)
    (hg : resolveField s fuel' underway' i = .ok g) : f = g := by
  induction fuel generalizing fuel' i underway underway' f g with
  | zero => cases hf
  | succ fuel ih =>
      cases fuel' with
      | zero => cases hg
      | succ fuel' =>
          obtain ⟨own, hown, hf⟩ := resolveField_cases hf
          obtain ⟨own', hown', hg⟩ := resolveField_cases hg
          obtain rfl := Option.some.inj (hown.symm.trans hown')
          rcases hf with ⟨plain, rfl⟩ | ⟨target, referent, derived, found, rfl⟩
          · rcases hg with ⟨_, rfl⟩ | ⟨target, _, derived, _⟩
            · rfl
            · rw [plain] at derived
              cases derived
          · rcases hg with ⟨plain, _⟩ | ⟨target', referent', derived', found', rfl⟩
            · rw [plain] at derived
              cases derived
            · -- Both look for the target in the same two places, and the own fields come first in
              -- both.
              obtain rfl := Option.some.inj (derived.symm.trans derived')
              rcases found with ⟨j, hj, value⟩ | ⟨nowhere, value⟩
              · rcases found' with ⟨j', hj', value'⟩ | ⟨nowhere', _⟩
                · obtain rfl := Option.some.inj (hj.symm.trans hj')
                  rw [ih value value']
                · rw [nowhere'] at hj
                  cases hj
              · rcases found' with ⟨j', hj', _⟩ | ⟨_, value'⟩
                · rw [nowhere] at hj'
                  cases hj'
                · obtain rfl := Option.some.inj (value.symm.trans value')
                  rfl

/-- The inherited field of its name stands behind the sources of a field. -/
theorem FieldFrom.withInherited {s : FieldScope} {own f : Field} {sources : List Field}
    (h : FieldFrom own sources f) :
    FieldFrom own (sources ++ (fieldNamed? s.inherited own.name).toList)
      (s.withInherited f) := by
  rw [FieldScope.withInherited, h.name]
  cases fieldNamed? s.inherited own.name with
  | none =>
      rw [Option.toList_none, List.append_nil]
      exact h
  | some inherited => exact h.behind inherited

theorem resolveField_name {s : FieldScope} {fuel i : Nat} {underway : List Nat} {own f : Field}
    (hown : s.own[i]? = some own) (h : resolveField s fuel underway i = .ok f) :
    f.name = own.name := by
  cases fuel with
  | zero => cases h
  | succ fuel =>
      obtain ⟨own', hown', cases⟩ := resolveField_cases h
      obtain rfl := Option.some.inj (hown.symm.trans hown')
      rcases cases with ⟨-, rfl⟩ | ⟨target, referent, -, -, rfl⟩
      · exact (FieldFrom.alone own).withInherited.name
      · exact ((FieldFrom.alone own).behind referent).withInherited.name

/-- A name finds the resolved field in the fields of the register. -/
private theorem FieldScope.Referent.named {s : FieldScope} {fuel : Nat} {underway : List Nat}
    {kept : List Field} (resolved : resolveFields s = .ok kept) {target : String} {f : Field}
    (h : s.Referent (resolveField s fuel underway) target f) :
    fieldNamed? (kept ++ firstOfEachName (undefinedFields s.own s.inherited)) target =
      some f := by
  have each := forall₂_of_range (mapM_eq_ok.mp resolved)
  have names : kept.map (·.name) = s.own.map (·.name) :=
    names_of_forall₂ Field.name each fun _ _ ⟨_, hown, _, hf⟩ => resolveField_name hown hf
  rw [fieldNamed?_append_firsts names]
  rcases h with ⟨j, found, value⟩ | ⟨nowhere, value⟩
  · rw [show s.own.findIdx? (fun x => x.name == target) = some j from found]
    have inside := (List.findIdx?_eq_some_iff_getElem.mp found).1
    obtain ⟨x, hx, value'⟩ := getElem?_of_range (mapM_eq_ok.mp resolved) inside
    obtain rfl := resolveField_unique value' value
    exact hx
  · rw [show s.own.findIdx? (fun x => x.name == target) = none from nowhere]
    exact value

/-- **The fields of a register follow the rule.** -/
theorem fieldsFollow_of_resolveFields {s : FieldScope} {kept : List Field}
    (h : resolveFields s = .ok kept) :
    FieldsFollow TakesFirsts s.own s.inherited
      (kept ++ firstOfEachName (undefinedFields s.own s.inherited)) := by
  refine ⟨⟨kept, _, ?_, takesFirsts s.own s.inherited, rfl⟩⟩
  refine (forall₂_of_range (mapM_eq_ok.mp h)).imp fun o f hf => ?_
  obtain ⟨i, hown, -, hf⟩ := hf
  obtain ⟨own, hown', cases⟩ := resolveField_cases hf
  obtain rfl := Option.some.inj (hown.symm.trans hown')
  rcases cases with ⟨plain, rfl⟩ | ⟨target, referent, derived, found, rfl⟩
  · refine ⟨fun present => ?_, ?_⟩
    · rw [plain] at present
      cases present
    · rw [plain]
      exact (FieldFrom.alone o).withInherited
  · have named := found.named h
    refine ⟨fun _ => ?_, ?_⟩
    · rw [derived, Option.bind_some, named]
      rfl
    · rw [derived, Option.bind_some, named]
      exact ((FieldFrom.alone o).behind referent).withInherited

end ChipMap.Inheritance
