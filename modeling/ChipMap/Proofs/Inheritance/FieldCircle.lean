import ChipMap.Proofs.Inheritance.FieldRule
import ChipMap.Proofs.Inheritance.Underway

/-!
# Fields that wait for each other

While a field is resolved, the fields that need it wait.  They differ, and each of them derives from
the next (`Waiting`).  So the fuel of the resolution is never used up (`resolveField_steady`), and
**every cycle that is reported is one** (`resolveField_circle`).

### What is load-bearing

Fields are resolved inside one register and ask for nothing outside it, so they have a resolution of
their own, with numbers in place of places and a list of numbers that wait.  The list is the stack
of the calls.  A field asks for one other field at most, which is why the stack alone tells the
circle.
-/

namespace ChipMap.Inheritance

open Description

/-- **The fields that wait for a field**, the latest first.  They are fields of the register, no two
of them are the same, and each of them needs the one after it. -/
structure Waiting (fields : List Field) (underway : List Nat) (i : Nat) : Prop where
  inside : ∀ k ∈ i :: underway, k < fields.length
  nodup : underway.Nodup
  needs : (i :: underway).IsChain fun later earlier => FieldNeeds fields earlier later

namespace Waiting

variable {fields : List Field} {underway : List Nat} {i : Nat}

theorem first (h : i < fields.length) : Waiting fields [] i :=
  ⟨by simpa using h, List.nodup_nil, .singleton i⟩

/-- A field that another one derives from is resolved while that one waits. -/
theorem next (h : Waiting fields underway i) (fresh : i ∉ underway) {f : Field}
    (found : fields[i]? = some f) {target : String} (derived : f.derivedFrom = some target)
    {j : Nat} (index : fields.findIdx? (fun g => g.name == target) = some j) :
    Waiting fields (i :: underway) j := by
  have inside := (List.findIdx?_eq_some_iff_getElem.mp index).1
  refine ⟨?_, List.nodup_cons.mpr ⟨fresh, h.nodup⟩, ?_⟩
  · intro k hk
    rcases List.mem_cons.mp hk with rfl | hk
    · exact inside
    · exact h.inside k hk
  · refine List.isChain_cons.mpr ⟨?_, h.needs⟩
    rintro k hk
    obtain rfl : i = k := by simpa using hk
    exact ⟨f, target, found, derived, index⟩

/-- **Fewer fields wait than there are.** -/
theorem length_le (h : Waiting fields underway i) : underway.length ≤ fields.length := by
  have inside : underway ⊆ List.range fields.length := fun k hk =>
    List.mem_range.mpr (h.inside k (List.mem_cons_of_mem _ hk))
  simpa using (List.subperm_of_subset h.nodup inside).length_le

/-- **A field that waits for itself closes a circle.** -/
theorem circle {s : FieldScope} (h : Waiting s.own underway i) (again : i ∈ underway) :
    FieldCircle s.path s.own (s.chain underway i) := by
  have any : (underway.any fun k => id k == i) = true := by
    simpa using again
  obtain ⟨later, u, earlier, split, same, takes, -⟩ := exists_since id any
  obtain rfl : u = i := same
  obtain ⟨next, stack⟩ := List.isChain_cons.mp h.needs
  refine ⟨u :: later.reverse ++ [u], by simp, ?_, ?_, ?_⟩
  · rw [List.getLast?_concat]
    rfl
  · rw [split] at stack next
    exact isChain_since stack next
  · have chain : s.chain underway u = (u :: later.reverse ++ [u]).map s.fieldPath := by
      rw [FieldScope.chain]
      exact congrArg (fun l => (u :: l.reverse ++ [u]).map s.fieldPath) takes
    rw [chain, List.forall₂_map_right_iff, List.forall₂_same]
    intro k hk
    have inside : k < s.own.length := by
      refine h.inside k ?_
      rw [split]
      simp only [List.cons_append, List.mem_cons, List.mem_append, List.mem_reverse,
        List.not_mem_nil, or_false] at hk ⊢
      tauto
    refine ⟨s.own[k], List.getElem?_eq_getElem inside, ?_⟩
    rw [FieldScope.fieldPath, List.getElem?_eq_getElem inside]
    rfl

end Waiting

/-- **More fuel changes nothing**, as long as there is some for each field that does not wait. -/
theorem resolveField_steady {s : FieldScope} {fuel : Nat} {underway : List Nat} {i : Nat}
    (h : Waiting s.own underway i) (enough : s.own.length < fuel + underway.length) :
    resolveField s (fuel + 1) underway i = resolveField s fuel underway i := by
  induction fuel generalizing underway i with
  | zero =>
      have := h.length_le
      omega
  | succ fuel ih =>
      rw [resolveField]
      conv_rhs => rw [resolveField]
      split
      · rfl
      · next fresh =>
        cases found : s.own[i]? with
        | none => rfl
        | some f =>
            dsimp only
            cases derived : f.derivedFrom with
            | none => rfl
            | some target =>
                dsimp only
                cases index : s.index? target with
                | none => rfl
                | some j =>
                    have waiting := h.next (by simpa using fresh) found derived index
                    dsimp only
                    rw [ih waiting (by rw [List.length_cons]; omega)]

/-- **Every cycle of fields that is reported is one.** -/
theorem resolveField_circle {s : FieldScope} {fuel : Nat} {underway : List Nat} {i : Nat}
    (h : Waiting s.own underway i) (enough : s.own.length < fuel + underway.length)
    {kind : ItemKind} {chain : List String}
    (fault : resolveField s fuel underway i = .error (.cycle kind chain)) :
    kind = .field ∧ FieldCircle s.path s.own chain := by
  induction fuel generalizing underway i with
  | zero =>
      -- More fields would wait than there are.
      have := h.length_le
      omega
  | succ fuel ih =>
      obtain ⟨f, present⟩ : ∃ f, s.own[i]? = some f :=
        ⟨_, List.getElem?_eq_getElem (h.inside i List.mem_cons_self)⟩
      rw [resolveField, present] at fault
      split at fault
      · next again =>
        obtain ⟨rfl, rfl⟩ := ReferenceFault.cycle.inj (Except.error.inj fault)
        exact ⟨rfl, h.circle (by simpa using again)⟩
      · next fresh =>
        dsimp only at fault
        cases derived : f.derivedFrom with
        | none => rw [derived] at fault; cases fault
        | some target =>
            rw [derived] at fault
            dsimp only at fault
            cases index : s.index? target with
            | none =>
                rw [index] at fault
                dsimp only at fault
                split at fault
                · cases fault
                · cases fault
            | some j =>
                rw [index] at fault
                -- The field waits for one that is not among those that wait, so the induction goes
                -- on with one more.
                have waiting := h.next (by simpa using fresh) present derived index
                dsimp only at fault
                cases inner : resolveField s fuel (i :: underway) j with
                | ok f => rw [inner] at fault; cases fault
                | error e =>
                    rw [inner] at fault
                    obtain rfl := Except.error.inj fault
                    exact ih waiting (by rw [List.length_cons]; omega) inner

/-- **Fuel above the number of fields is enough.**  The fuel that the resolution has is one of
these. -/
theorem resolveFields_steady (s : FieldScope) {fuel : Nat} (enough : s.own.length < fuel) :
    ((List.range s.own.length).mapM fun i => resolveField s fuel [] i) = resolveFields s := by
  have same : ∀ i, i < s.own.length →
      resolveField s fuel [] i = resolveField s (s.own.length + 1) [] i := by
    intro i hi
    induction fuel, enough using Nat.le_induction with
    | base => rfl
    | succ fuel enough ih => exact (resolveField_steady (.first hi) enough).trans ih
  exact mapM_congr fun i hi => same i (List.mem_range.mp hi)

/-- **Every cycle among the fields of a register is one.** -/
theorem resolveFields_circle {s : FieldScope} {kind : ItemKind} {chain : List String}
    (fault : resolveFields s = .error (.cycle kind chain)) :
    kind = .field ∧ FieldCircle s.path s.own chain := by
  obtain ⟨i, hi, fault⟩ := exists_of_mapM_eq_error fault
  exact resolveField_circle (.first (List.mem_range.mp hi)) (by simp) fault

end ChipMap.Inheritance
