import ChipMap.Proofs.Description.Item
import ChipMap.Proofs.Map.Overlap
import ChipMap.Proofs.Map.Parts
import ChipMap.Proofs.Map.WellFormed
import ChipMap.Proofs.Word.Bits

/-!
# Fields and cases are well formed

The fields of a register are built one after another, renamed, sorted and checked.  A renamed field
is as well formed as before (`Field.WellFormed.rename`), so what has to be known of a field is known
where it is built: it has a bit because the range of its description does
(`Description.Field.Ranged`), and its last bit was compared with the size of the register.

### What is load-bearing

Positions of fields are clamped to words.  For a register of up to 64 bits that changes nothing, but
only the comparison with its size says so: a field that was clamped would end beyond the register.

Cases are compared, renamed and sorted like fields, with one step more: of equal neighbours one is
kept.  No case gets lost by that, and no new one appears (`mem_eraseReps`).
-/

namespace ChipMap.Map

open Name (IsIdentifier distinctKey)

section Neighbours

variable {α : Type} [DecidableEq α] {x : α} {l : List α}

/-- **Two neighbours that are equal become one.**  The library's function is written with an
accumulator, and this is its recursion. -/
theorem eraseReps_cons_cons (a b : α) (l : List α) :
    (a :: b :: l).eraseReps = if a = b then (b :: l).eraseReps else a :: (b :: l).eraseReps := by
  -- The loop collects what it keeps in front of what it goes on with.
  have loop (a : α) (as acc : List α) : List.eraseRepsBy.loop (· == ·) a as acc =
      acc.reverse ++ List.eraseRepsBy.loop (· == ·) a as [] := by
    induction as generalizing a acc with
    | nil => simp [List.eraseRepsBy.loop]
    | cons b as ih =>
        rw [List.eraseRepsBy.loop, List.eraseRepsBy.loop]
        split
        · exact ih a acc
        · rw [ih b (a :: acc), ih b [a], List.reverse_cons, List.append_assoc]
          rfl
  show List.eraseRepsBy.loop (· == ·) a (b :: l) [] = _
  rw [List.eraseRepsBy.loop]
  by_cases same : a = b
  · subst same
    rw [beq_self_eq_true, if_pos rfl]
    rfl
  · rw [beq_false_of_ne same, if_neg same]
    exact loop b l [a]

/-- **No entry is lost with its repeats**, and none is new. -/
theorem mem_eraseReps : x ∈ l.eraseReps ↔ x ∈ l := by
  induction l with
  | nil => rfl
  | cons a l ih =>
      cases l with
      | nil => rfl
      | cons b l =>
          rw [eraseReps_cons_cons]
          split
          · next same => simp [ih, same]
          · rw [List.mem_cons, ih, List.mem_cons (a := x) (b := a)]

end Neighbours

theorem isIdentifier_of_identifier {path name id : String} (h : identifier path name = .ok id) :
    IsIdentifier id :=
  Name.isIdentifier_of_identifier? (identifier_ok h)

/-! ### Cases -/

/-- What is known of one case before its name is claimed: its name is an identifier, and its value
and its mask fit the field. -/
structure EnumCase.Fits (width : Nat) (c : EnumCase) : Prop where
  identifier : IsIdentifier c.name
  value : ∀ v ∈ c.value, v.toNat < 2 ^ width
  mask : c.mask.toNat < 2 ^ width

theorem EnumCase.Fits.rename {width : Nat} {c : EnumCase} (h : c.Fits width) {name : String}
    (identifier : IsIdentifier name) : EnumCase.Fits width { c with name } :=
  ⟨identifier, h.value, h.mask⟩

/-- **A case that is built fits its field.** -/
theorem buildCase_fits {path : String} {width : Nat} {c : Description.EnumeratedCase}
    {built : EnumCase} (h : buildCase path width c = .ok built) : built.Fits width := by
  obtain ⟨⟨value, mask⟩, hpattern, h⟩ := bind_eq_ok.mp h
  obtain ⟨name, hname, h⟩ := bind_eq_ok.mp h
  obtain rfl := Except.ok.inj h
  have identifier := isIdentifier_of_identifier hname
  unfold casePattern at hpattern
  cases hvalue : c.value with
  | none =>
      rw [hvalue] at hpattern
      obtain ⟨rfl, rfl⟩ := Prod.mk.inj (Except.ok.inj hpattern)
      exact ⟨identifier, by simp, Nat.two_pow_pos width⟩
  | some p =>
      rw [hvalue] at hpattern
      dsimp only at hpattern
      split at hpattern
      · cases hpattern
      · next fits =>
        obtain ⟨rfl, rfl⟩ := Prod.mk.inj (Except.ok.inj hpattern)
        refine ⟨identifier, ?_, Bits.toNat_and_mask_lt _ _⟩
        rintro _ ⟨⟩
        exact Bits.toNat_lt_of_and_not_mask (not_not.mp fits)

theorem caseOrder_totalOrder :
    Name.TotalOrder (Name.lexLe (α := Bool) (Name.lexLe (α := Nat) Name.textLe)) :=
  Name.textLe_totalOrder.lexLe.lexLe

theorem EnumCase.before_of_le (a b : EnumCase) (ha : IsIdentifier a.name)
    (hb : IsIdentifier b.name) (other : a.name ≠ b.name)
    (h : Name.lexLe (Name.lexLe Name.textLe) (a.isDefault, valueRank a.value, a.name)
      (b.isDefault, valueRank b.value, b.name) = true) : a.Before b := by
  rcases Name.lexLe_iff.mp h with first | ⟨same, h⟩
  · exact .inl first
  · exact .inr ⟨same, Name.lt_of_lexLe ha hb other h⟩

/-- **The cases of a field are well formed**: they fit, their names are apart, and they are in
order. -/
theorem buildCases_wellFormed {path : String} {width : Nat} {f : Description.Field}
    {cases : List EnumCase} (h : buildCases path width f = .ok cases) :
    CasesWellFormed width cases := by
  obtain ⟨built, hbuilt, h⟩ := bind_eq_ok.mp h
  have fits : ∀ c ∈ (sortCases built).eraseReps, c.Fits width := by
    intro c hc
    obtain ⟨d, -, hd⟩ := exists_of_mapM_eq_ok hbuilt (Name.mem_sortOn.mp (mem_eraseReps.mp hc))
    exact buildCase_fits hd
  obtain rfl := Except.ok.inj h
  obtain ⟨fit, apart, order⟩ := Name.sortOn_renameInOrder caseOrder_totalOrder
    (fun _ _ => rfl) (fun c hc => hc.identifier) (fun c _ n hn hc => hc.rename hn) fits
    EnumCase.before_of_le
  exact ⟨fun c hc => (fit c hc).identifier, apart, order, fun c hc => (fit c hc).value,
    fun c hc => (fit c hc).mask⟩

/-! ### Fields -/

theorem Field.WellFormed.rename {size : Nat} {f : Field} (h : f.WellFormed size) {name : String}
    (identifier : IsIdentifier name) : Field.WellFormed size { f with name } :=
  ⟨identifier, h.nonempty, h.inside, h.cases⟩

/-- **One element of a field is well formed**: it was compared with the size of the register,
and up to this size no position is clamped. -/
theorem buildFieldElement_wellFormed {register path : String} {size width : Nat}
    {defaults : FieldDefaults} {cases : List EnumCase} {f : Description.Field}
    {element : String × Nat} {built : Field} (small : size ≤ 64) (positive : 0 < width)
    (hcases : CasesWellFormed (min width 64) cases)
    (h : buildFieldElement register path size width defaults cases f element = .ok built) :
    built.WellFormed size := by
  obtain ⟨inside, name, named, rfl⟩ := buildFieldElement_ok h
  have exact_stop : clampedAdd element.2 width = element.2 + width := by
    simp only [clampedAdd, clamp, Word.greatest] at inside ⊢
    omega
  have nonempty : element.2 < clampedAdd element.2 width := by omega
  refine ⟨Name.isIdentifier_of_identifier? named, nonempty, inside, ?_⟩
  have same : min width 64 = clampedAdd element.2 width - element.2 := by omega
  change CasesWellFormed (clampedAdd element.2 width - element.2) cases
  rw [← same]
  exact hcases

theorem buildField_wellFormed {register : String} {size : Nat} {defaults : FieldDefaults}
    {f : Description.Field} {built : List Field} (small : size ≤ 64) (ranged : f.Ranged)
    (h : buildField register size defaults f = .ok built) : ∀ x ∈ built, x.WellFormed size := by
  obtain ⟨range, cases, hrange, hcases, elements⟩ := buildField_ok h
  have positive : 0 < bitCount range := by
    have := ranged range hrange
    unfold bitCount
    omega
  intro x hx
  obtain ⟨element, -, helement⟩ := exists_of_forall₂ elements.flip hx
  exact buildFieldElement_wellFormed small positive (buildCases_wellFormed hcases) helement

theorem fieldOrder_totalOrder : Name.TotalOrder (Name.lexLe (α := Nat) Name.textLe) :=
  Name.textLe_totalOrder.lexLe

theorem Field.before_of_le (a b : Field) (ha : IsIdentifier a.name) (hb : IsIdentifier b.name)
    (other : a.name ≠ b.name)
    (h : Name.lexLe Name.textLe (a.bits.start, a.name) (b.bits.start, b.name) = true) :
    a.Before b :=
  Name.lt_of_lexLe ha hb other h

/-- Checked fields are the ones that were given, and each begins where all before it have ended.
The check only compares. -/
theorem checkFields_ok {register : String} {fields checked : List Field}
    (h : checkFields register fields = .ok checked) :
    checked = fields ∧ fields.Pairwise fun f g => f.bits.stop ≤ g.bits.start := by
  unfold checkFields at h
  cases none : overlapsAfter none (fields.map Field.span) with
  | nil =>
      rw [none] at h
      exact ⟨(Except.ok.inj h).symm, List.pairwise_map.mp (overlapsAfter_eq_nil_iff.mp none).2⟩
  | cons o _ =>
      rw [none] at h
      cases h

/-- **The fields of a register of 1 to 64 bits are well formed**, apart, in order and
disjoint. -/
theorem buildFields_wellFormed {register : String} {size : Nat} {defaults : FieldDefaults}
    {fields : List Description.Field} {built : List Field} (small : size ≤ 64)
    (ranged : ∀ f ∈ fields, f.Ranged) (h : buildFields register size defaults fields = .ok built) :
    (∀ f ∈ built, f.WellFormed size) ∧ Name.Apart (built.map (·.name)) ∧
      built.Pairwise Field.Before ∧
      built.Pairwise fun f g => ∀ i, ¬(f.bits.Contains i ∧ g.bits.Contains i) := by
  obtain ⟨lists, hlists, h⟩ := bind_eq_ok.mp h
  obtain ⟨rfl, apart⟩ := checkFields_ok h
  have each : ∀ f ∈ lists.flatten, f.WellFormed size := by
    intro f hf
    obtain ⟨list, hlist, hf⟩ := List.mem_flatten.mp hf
    obtain ⟨described, hdescribed, hbuilt⟩ := exists_of_mapM_eq_ok hlists hlist
    exact buildField_wellFormed small (ranged described hdescribed) hbuilt f hf
  obtain ⟨all, names, order⟩ := Name.sortOn_renameInOrder fieldOrder_totalOrder
    (fun _ _ => rfl) (fun f hf => hf.identifier) (fun f _ n hn hf => hf.rename hn) each
    Field.before_of_le
  refine ⟨all, names, order, apart.imp fun stop i => ?_⟩
  rintro ⟨⟨-, below⟩, above, -⟩
  omega

end ChipMap.Map
