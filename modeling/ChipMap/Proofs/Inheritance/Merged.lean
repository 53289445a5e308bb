import ChipMap.Proofs.Description.Item
import ChipMap.Proofs.Inheritance.Attributes
import ChipMap.Proofs.Inheritance.Direct
import ChipMap.Proofs.Inheritance.Named

/-!
# Merged nodes follow the rule

`mergeItem` merges the referent of a node with its counterpart, child by child: what it returns for
a register and for a cluster is said once (`mergeItem_register_ok`, `mergeItem_cluster_ok`), and
what becomes of one child in `mergeChild_ok`.  **What it returns is merged as the rule says**
(`mergedItem_of_mergeItem`), by induction over the referent.

### What is load-bearing

A node is merged only with a node of its kind, at every depth, and anything else is a fault.  So
whoever has the result knows the kinds of the two nodes (`MergedItem.kind_eq`), and a search for a
base never yields a node of another kind (`itemBase_kind`).

Children are merged by name, with the first child of the name.  Further children of that name in the
base are dropped with it, and children of other names are taken over as they are.
-/

namespace ChipMap.Inheritance

open Description

section Steps

variable {path : String}

/-- **A register merges with a register.** -/
theorem mergeItem_register_ok {own : Register} {base merged : Item} :
    mergeItem path base (.register own) = .ok merged ↔ ∃ b, base = .register b ∧
      merged = .register { own.orElse b with fields := mergeFields own.fields b.fields } := by
  cases base with
  | register b => simp [mergeItem, eq_comm]
  | cluster _ _ => simp [mergeItem, mismatch]

/-- A child merged with the first child of its name in the base, if there is one.  This is the body
of the recursion, so that its list can be spoken of as a list. -/
def mergeChild (path : String) (inherited : List Item) (child : Item) :
    Except ReferenceFault Item :=
  match itemNamed? inherited child.name with
  | some base => mergeItem (childPath path child.name) base child
  | none => .ok child

theorem mergeItems_eq_mapM (path : String) (inherited children : List Item) :
    mergeItems path inherited children = children.mapM (mergeChild path inherited) := by
  induction children with
  | nil => rw [mergeItems, List.mapM_nil]
  | cons child rest ih =>
      rw [mergeItems, List.mapM_cons, ih, mergeChild]
      cases itemNamed? inherited child.name with
      | some base => rfl
      | none => rfl

/-- **A cluster merges with a cluster**, each of its children by itself. -/
theorem mergeItem_cluster_ok {own : ClusterInfo} {children : List Item} {base merged : Item} :
    mergeItem path base (.cluster own children) = .ok merged ↔ ∃ b inherited kept,
      base = .cluster b inherited ∧ children.mapM (mergeChild path inherited) = .ok kept ∧
      merged = .cluster (own.orElse b) (appendUndefined children inherited kept) := by
  cases base with
  | register _ => simp [mergeItem, mismatch]
  | cluster b inherited =>
      rw [mergeItem, mergeItems_eq_mapM, bind_eq_ok]
      simp [pure, Except.pure, eq_comm]

/-- **A child is kept**, or merged with the first child of its name. -/
theorem mergeChild_ok {inherited : List Item} {child merged : Item} :
    mergeChild path inherited child = .ok merged ↔
      itemNamed? inherited child.name = none ∧ child = merged ∨
        ∃ base, itemNamed? inherited child.name = some base ∧
          mergeItem (childPath path child.name) base child = .ok merged := by
  unfold mergeChild
  cases itemNamed? inherited child.name with
  | none => simp
  | some base => simp

theorem mergeItem_name {own base merged : Item} (h : mergeItem path base own = .ok merged) :
    merged.name = own.name := by
  cases own with
  | register r =>
      obtain ⟨b, -, rfl⟩ := mergeItem_register_ok.mp h
      rfl
  | cluster info children =>
      obtain ⟨b, inherited, kept, -, -, rfl⟩ := mergeItem_cluster_ok.mp h
      rfl

theorem mergeChild_name {inherited : List Item} {child merged : Item}
    (h : mergeChild path inherited child = .ok merged) : merged.name = child.name := by
  rcases mergeChild_ok.mp h with ⟨-, rfl⟩ | ⟨base, -, h⟩
  · rfl
  · exact mergeItem_name h

end Steps

/-- The fields of two registers merged: the first one's, each with the second one's field of its
name behind it, and those taken over from the second one. -/
theorem mergeFields_split (own base : List Field) :
    ∃ kept, List.Forall₂ (MergedField base) own kept ∧
      mergeFields own base = kept ++ firstOfEachName (undefinedFields own base) := by
  have merged : mergeFields own base =
      appendNewNames (own.map fun f => (fieldNamed? base f.name).elim f f.orElse) base := by
    rw [mergeFields]
    congr 2
    funext f
    cases fieldNamed? base f.name with
    | none => rfl
    | some inherited => rfl
  refine ⟨own.map fun f => (fieldNamed? base f.name).elim f f.orElse, ?_, ?_⟩
  · rw [List.forall₂_map_right_iff, List.forall₂_same]
    intro f _
    cases found : fieldNamed? base f.name with
    | none => exact .kept found
    | some inherited =>
        refine .merged found ?_
        exact (FieldFrom.alone f).behind inherited
  · rw [merged, appendNewNames_eq]
    congr 2
    -- Merged fields keep their names, so the same fields of the base are undefined.
    refine undefinedFields_congr ?_ base
    rw [List.map_map]
    refine List.map_congr_left fun f _ => ?_
    rw [Function.comp_apply]
    cases fieldNamed? base f.name with
    | none => rfl
    | some inherited => rfl

/-- Children are merged as the rule says when each of them is. -/
private theorem mergedItems_of_mergeChild {path : String} {inherited children kept : List Item}
    (each : ∀ child ∈ children, ∀ {path : String} {base merged : Item},
      mergeItem path base child = .ok merged → MergedItem TakesFirsts child base merged)
    (h : List.Forall₂ (fun c m => mergeChild path inherited c = .ok m) children kept) :
    MergedItems TakesFirsts inherited children kept := by
  induction h with
  | nil => exact .nil
  | cons first _ ih =>
      have tail := ih fun c hc => each c (.tail _ hc)
      rcases mergeChild_ok.mp first with ⟨plain, rfl⟩ | ⟨base, found, merged⟩
      · exact .kept plain tail
      · exact .merged found (each _ (.head _) merged) tail

/-- **Merged nodes are merged as the rule says.** -/
theorem mergedItem_of_mergeItem (own : Item) : ∀ {path : String} {base merged : Item},
    mergeItem path base own = .ok merged → MergedItem TakesFirsts own base merged := by
  induction own using Item.induct with
  | register own =>
      intro path base merged h
      obtain ⟨b, rfl, rfl⟩ := mergeItem_register_ok.mp h
      obtain ⟨kept, follows, split⟩ := mergeFields_split own.fields b.fields
      have attributes := (RegisterFrom.alone own).behind b
      exact .register (attributes.withFields _) follows (takesFirsts _ _) split
  | cluster own children ih =>
      intro path base merged h
      obtain ⟨b, inherited, kept, rfl, hkept, rfl⟩ := mergeItem_cluster_ok.mp h
      exact .cluster ((ClusterFrom.alone own).behind b)
        (mergedItems_of_mergeChild ih (mapM_eq_ok.mp hkept))

theorem MergedItem.kind_eq {Takes : List Field → List Field → List Field → Prop}
    {first second merged : Item} (h : MergedItem Takes first second merged) :
    merged.kind = first.kind ∧ second.kind = first.kind := by
  cases h with
  | register => exact ⟨rfl, rfl⟩
  | cluster => exact ⟨rfl, rfl⟩

/-! ### Bases -/

/-- The base of a node, and the kinds of the nodes that it is merged from.  One of them alone is the
base as it is. -/
theorem baseOf_ok {item : Item} {path : String} {referent counterpart base : Option Item}
    (kind : ∀ x ∈ referent, x.kind = item.kind)
    (h : baseOf item path referent counterpart = .ok base) :
    MergedBase TakesFirsts referent counterpart base ∧
      ∀ source ∈ referent.toList ++ counterpart.toList, source.kind = item.kind := by
  cases referent with
  | none =>
      cases counterpart with
      | none =>
          obtain rfl := Except.ok.inj h
          exact ⟨.neither, by simp⟩
      | some c =>
          rw [baseOf] at h
          split at h
          · next same =>
            obtain rfl := Except.ok.inj h
            exact ⟨.ofCounterpart, by simpa using same⟩
          · cases h
  | some x =>
      have hx := kind x rfl
      cases counterpart with
      | none =>
          obtain rfl := Except.ok.inj h
          exact ⟨.ofReferent, by simpa using hx⟩
      | some c =>
          rw [baseOf] at h
          cases hm : mergeItem path c x with
          | error e =>
              rw [hm] at h
              cases h
          | ok m =>
              rw [hm] at h
              obtain rfl := Except.ok.inj h
              have merged := mergedItem_of_mergeItem x hm
              have hc := merged.kind_eq.2.trans hx
              exact ⟨.ofBoth merged, by simp [hx, hc]⟩

/-- The base has the kind of the nodes that it is merged from. -/
theorem MergedBase.kind_eq {Takes : List Field → List Field → List Field → Prop}
    {referent counterpart base : Option Item} (h : MergedBase Takes referent counterpart base)
    {kind : ItemKind} (kinds : ∀ source ∈ referent.toList ++ counterpart.toList,
      source.kind = kind) : ∀ b ∈ base, b.kind = kind := by
  rintro b ⟨⟩
  cases h with
  | ofReferent => exact kinds _ (by simp)
  | ofCounterpart => exact kinds _ (by simp)
  | ofBoth merged => exact merged.kind_eq.1.trans (kinds _ (by simp))

theorem ofExcept_eq {α : Type} (e : Except ReferenceFault α) :
    (ofExcept e : Except ReferenceFault α) = e := by
  cases e with
  | error _ => rfl
  | ok _ => rfl

section Steps

variable {d : Device} {solve : Solvers (Except ReferenceFault)}

/-- A referent has the kind of its node, and a node without one derives from nothing.  A referent of
another kind is a fault. -/
theorem referentOf_kind {levels : List Level} {item : Item} {path : String}
    {referent : Option Item} (h : referentOf d solve levels item path = .ok referent) :
    (∀ x ∈ referent, x.kind = item.kind) ∧ (referent = none → item.derivedFrom = none) := by
  unfold referentOf at h
  split at h
  · next plain =>
    cases Except.ok.inj h
    exact ⟨by simp, fun _ => plain⟩
  · obtain ⟨found, -, h⟩ := bind_eq_ok.mp h
    split at h
    · next same =>
      cases Except.ok.inj h
      exact ⟨by simpa using same, fun absurd => nomatch absurd⟩
    · cases h

/-- **The base of a node is of its kind**, and a node without one derives from nothing. -/
theorem itemBase_kind {level : Level} {outer : List Level} {item : Item} {path : String}
    {base : Option Item} (h : itemBase d solve level outer path item = .ok base) :
    (∀ b ∈ base, b.kind = item.kind) ∧ (base = none → item.derivedFrom = none) := by
  obtain ⟨referent, hreferent, h⟩ := bind_eq_ok.mp h
  rw [ofExcept_eq] at h
  obtain ⟨kind, plain⟩ := referentOf_kind hreferent
  obtain ⟨merged, kinds⟩ := baseOf_ok kind h
  refine ⟨merged.kind_eq kinds, ?_⟩
  rintro rfl
  generalize itemNamed? level.inherited item.name = counterpart at merged
  cases merged with
  | neither => exact plain rfl

end Steps

end ChipMap.Inheritance
