import ChipMap.Proofs.Inheritance.Merged
import ChipMap.Proofs.Order.Description

/-!
# Merging in another order

A node is merged with its base child by child, and the children are matched by name.  So **matching
nodes merge into matching nodes**, or neither of the two pairs merges (`mergeItem_alike`).

### What is load-bearing

A merge keeps the children of the node in their order and appends those of the base that the node
does not define.  Two orders of the node and of the base therefore give two orders of the result,
and no name comes up twice in it: what is appended was chosen for its name
(`siblings_appendUndefined`, `siblings_mergeFields`).

Fields of a base with distinct names are appended as they are (`appendNewNames_of_distinct`).
Without that hypothesis the first of several namesakes would be the only one that is taken, and
which one that is depends on the order.
-/

namespace ChipMap.Inheritance

open Description

/-! ### Fields -/

/-- The fields of a base with distinct names are appended as they are. -/
theorem appendNewNames_of_distinct (own : List Field) {base : List Field}
    (distinct : (base.map Field.name).Nodup) :
    appendNewNames own base = own ++ base.filter fun b => !own.any fun o => o.name == b.name := by
  rw [appendNewNames_eq, firstOfEachName_eq_self_iff _ |>.mpr, undefinedFields]
  exact distinct.sublist (List.filter_sublist.map Field.name)

section Fields

variable {own own' base base' : List Field}

theorem siblings_appendNewNames (h : Siblings Eq Field.name own own')
    (h' : Siblings Eq Field.name base base') :
    Siblings Eq Field.name (appendNewNames own base) (appendNewNames own' base') := by
  rw [appendNewNames_of_distinct own h'.distinct, appendNewNames_of_distinct own' h'.distinct_right]
  exact h.append_undefined h'

theorem siblings_mergeFields (h : Siblings Eq Field.name own own')
    (h' : Siblings Eq Field.name base base') :
    Siblings Eq Field.name (mergeFields own base) (mergeFields own' base') := by
  refine siblings_appendNewNames (h.map ?_ h.named fun f => ?_) h'
  · rintro f _ rfl
    rw [fieldNamed?, h'.find?_eq f.name]
    rfl
  · cases fieldNamed? base f.name with
    | none => rfl
    | some inherited => rfl

end Fields

/-! ### Registers and clusters -/

/-- Children behind which stand those of a base that they do not define. -/
theorem siblings_appendUndefined {own own' base base' kept kept' : List Item}
    (h : Siblings Item.Matches Item.name kept kept')
    (h' : Siblings Item.Matches Item.name base base')
    (names : kept.map Item.name = own.map Item.name)
    (names' : kept'.map Item.name = own'.map Item.name) :
    Siblings Item.Matches Item.name (appendUndefined own base kept)
      (appendUndefined own' base' kept') := by
  have defined (n : String) := any_name_congr Item.name names n
  have defined' (n : String) := any_name_congr Item.name names' n
  simp only [appendUndefined, ← defined, ← defined']
  exact h.append_undefined h'

/-- **Children merge into matching siblings** or not at all, when each of them merges alike. -/
theorem mergeItems_alike {children children' inherited inherited' : List Item}
    (h : Siblings Item.Matches Item.name children children')
    (h' : Siblings Item.Matches Item.name inherited inherited')
    (each : ∀ c ∈ children, ∀ {c' b b' : Item} {path : String}, c.Matches c' → b.Matches b' →
      Alike Item.Matches (mergeItem path b c) (mergeItem path b' c')) (path : String) :
    Alike (fun kept kept' => Siblings Item.Matches Item.name
        (appendUndefined children inherited kept) (appendUndefined children' inherited' kept'))
      (mergeItems path inherited children) (mergeItems path inherited' children') := by
  have one : ∀ c c', c ∈ children ∧ c' ∈ children' ∧ c.Matches c' →
      Alike Item.Matches (mergeChild path inherited c) (mergeChild path inherited' c') := by
    rintro c c' ⟨hc, -, m⟩
    unfold mergeChild itemNamed?
    rw [← m.name_eq]
    -- Partners look for one name, so both are merged or both are kept.
    rcases optionRel_iff.mp (h'.find? c.name) with ⟨left, right⟩ | ⟨b, b', left, right, m'⟩
    · rw [left, right]
      exact .ok m
    · rw [left, right]
      exact each c hc m m'
  rw [mergeItems_eq_mapM, mergeItems_eq_mapM]
  refine (Alike.mapM h.shuffled.members one).returned.mono ?_
  rintro kept kept' ⟨hkept, hkept', shuffled⟩
  have names := names_of_forall₂ Item.name (mapM_eq_ok.mp hkept) fun _ _ h => mergeChild_name h
  have names' := names_of_forall₂ Item.name (mapM_eq_ok.mp hkept') fun _ _ h => mergeChild_name h
  have merged : Siblings Item.Matches Item.name kept kept' :=
    ⟨shuffled, fun _ _ m => m.name_eq, names ▸ h.distinct⟩
  exact siblings_appendUndefined merged h' names names'

/-- **Matching nodes merge into matching nodes** or not at all, by induction over the first.  The
paths under which merges are reported are the same on both sides. -/
theorem mergeItem_alike (own : Item) : ∀ {own' base base' : Item} {path : String},
    own.Matches own' → base.Matches base' →
      Alike Item.Matches (mergeItem path base own) (mergeItem path base' own') := by
  induction own using Item.induct with
  | register r =>
      intro own' base base' path hown hbase
      obtain ⟨_, ⟨fields, siblings, rfl⟩, rfl⟩ := Item.matches_register.mp hown
      cases base with
      | cluster _ _ =>
          obtain ⟨_, _, rfl⟩ := Item.matches_cluster.mp hbase
          rw [mergeItem, mergeItem]
          exact .error
      | register b =>
          obtain ⟨_, ⟨fields', siblings', rfl⟩, rfl⟩ := Item.matches_register.mp hbase
          rw [mergeItem, mergeItem]
          exact .ok (Item.matches_register.mpr
            ⟨_, ⟨_, siblings_mergeFields siblings siblings', rfl⟩, rfl⟩)
  | cluster info children ih =>
      intro own' base base' path hown hbase
      obtain ⟨children', siblings, rfl⟩ := Item.matches_cluster.mp hown
      cases base with
      | register _ =>
          obtain ⟨_, _, rfl⟩ := Item.matches_register.mp hbase
          rw [mergeItem, mergeItem]
          exact .error
      | cluster b inherited =>
          obtain ⟨inherited', siblings', rfl⟩ := Item.matches_cluster.mp hbase
          rw [mergeItem, mergeItem]
          exact (mergeItems_alike siblings siblings' ih path).bind fun kept kept' m =>
            .ok (Item.matches_cluster.mpr ⟨_, m, rfl⟩)

end ChipMap.Inheritance
