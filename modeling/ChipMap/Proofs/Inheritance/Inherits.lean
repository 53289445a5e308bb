import ChipMap.Proofs.Inheritance.Merged
import ChipMap.Proofs.Inheritance.Scope

/-!
# Resolved descriptions follow the rule of inheritance

`resolve_inherits`: **every node of a resolved description, at any depth, has the attributes and the
children that the rule of inheritance gives it.**  The proof goes down the described nodes.  At each
node the sources are read off the look-up (`Answers.sourcesOf_itemBase`), the attributes off the
sources, and the children off the level inside.

The rule that holds lets a register take over the first field of each name.  The rule that lets it
take over all of them fails where the base of a register has two fields of one name
(`resolve_not_takesAll`).

### What is load-bearing

The rule speaks of the described node, of the resolved one and of the result as a whole, and of
nothing on the way.  So the induction is over described nodes, although the nodes that they inherit
from may stand anywhere: these are named in the result, which is given.

Attributes and children come from the same base but are said in different words.  Attributes are
those of the sources one after another, and children are those of the two sources merged;
`MergedBase.registerFrom` and `MergedBase.clusterFrom` turn the latter into the former.
-/

namespace ChipMap.Inheritance

open Description

section Sources

variable {d r : Device} {solve : Solvers (Except ReferenceFault)}

/-- The referent of a node is the node of its kind that its reference names. -/
theorem Answers.referentOf_ok (answers : Answers d r solve) {levels : List Level}
    {scopes : List (List Item)} (hscopes : Scopes solve levels scopes) {item : Item}
    {path : String} {referent : Option Item}
    (h : referentOf d solve levels item path = .ok referent) :
    referent = item.derivedFrom.bind (referent? r (rootPath levels) scopes) ∧
      (item.derivedFrom.isSome → referent.isSome) ∧ ∀ x ∈ referent, x.kind = item.kind := by
  unfold referentOf at h
  cases hderived : item.derivedFrom with
  | none =>
      rw [hderived] at h
      obtain rfl := Except.ok.inj h
      exact ⟨rfl, fun absurd => absurd, by simp⟩
  | some target =>
      rw [hderived] at h
      obtain ⟨found, hfound, h⟩ := bind_eq_ok.mp h
      split at h
      · next same =>
        obtain rfl := Except.ok.inj h
        have named := answers.lookupReferent_ok hscopes hfound
        exact ⟨named.symm, fun _ => rfl, by simpa using same⟩
      · cases h

/-- **The sources of a node**, read off its look-up. -/
theorem Answers.sourcesOf_itemBase (answers : Answers d r solve) {level : Level}
    {outer : List Level} {scopes : List (List Item)}
    (hscopes : Scopes solve (level :: outer) scopes) {item : Item} {path : String}
    {base : Option Item} (h : itemBase d solve level outer path item = .ok base) :
    ∃ referent, SourcesOf TakesFirsts r (rootPath (level :: outer)) scopes level.inherited
      item referent (itemNamed? level.inherited item.name) base := by
  obtain ⟨referent, hreferent, h⟩ := bind_eq_ok.mp h
  rw [ofExcept_eq] at h
  obtain ⟨named, found, kind⟩ := answers.referentOf_ok hscopes hreferent
  obtain ⟨merged, kinds⟩ := baseOf_ok kind h
  exact ⟨referent, named, found, rfl, kinds, merged⟩

/-- **The attributes of a register** come from its sources in order when they come from
the merged base. -/
theorem MergedBase.registerFrom {Takes : List Field → List Field → List Field → Prop}
    {referent counterpart base : Option Item} (h : MergedBase Takes referent counterpart base)
    (own : Register)
    (kind : ∀ source ∈ referent.toList ++ counterpart.toList, source.kind = .register) :
    RegisterFrom own ((referent.toList ++ counterpart.toList).filterMap asRegister?)
      ((base.bind asRegister?).elim { own with derivedFrom := none } own.orElse) := by
  cases h with
  | neither => exact .alone own
  | @ofReferent x =>
      cases x with
      | register b => exact (RegisterFrom.alone own).behind b
      | cluster _ _ => simp [Item.kind] at kind
  | @ofCounterpart c =>
      cases c with
      | register b => exact (RegisterFrom.alone own).behind b
      | cluster _ _ => simp [Item.kind] at kind
  | ofBoth merged =>
      cases merged with
      | register attributes _ _ _ => exact .before own attributes
      | cluster _ _ => simp [Item.kind] at kind

/-- **The attributes of a cluster** come from its sources in order when they come from the
merged base. -/
theorem MergedBase.clusterFrom {Takes : List Field → List Field → List Field → Prop}
    {referent counterpart base : Option Item} (h : MergedBase Takes referent counterpart base)
    (own : ClusterInfo)
    (kind : ∀ source ∈ referent.toList ++ counterpart.toList, source.kind = .cluster) :
    ClusterFrom own ((referent.toList ++ counterpart.toList).filterMap asClusterInfo?)
      ((base.bind asClusterInfo?).elim { own with derivedFrom := none } own.orElse) := by
  cases h with
  | neither => exact .alone own
  | @ofReferent x =>
      cases x with
      | cluster b _ => exact (ClusterFrom.alone own).behind b
      | register _ => simp [Item.kind] at kind
  | @ofCounterpart c =>
      cases c with
      | cluster b _ => exact (ClusterFrom.alone own).behind b
      | register _ => simp [Item.kind] at kind
  | ofBoth merged =>
      cases merged with
      | cluster attributes _ => exact .before own attributes
      | register _ _ _ _ => simp [Item.kind] at kind

end Sources

/-! ### Down the nodes -/

theorem ItemsFollow.of_forall₂ {Takes : List Field → List Field → List Field → Prop}
    {r : Device} {root : String} {scopes : List (List Item)} {inherited owns kept : List Item}
    (h : List.Forall₂ (ItemFollows Takes r root scopes inherited) owns kept) :
    ItemsFollow Takes r root scopes inherited owns kept := by
  induction h with
  | nil => exact .nil
  | cons head _ ih => exact .cons head ih

section Nodes

variable {d r : Device} {solve : Solvers (Except ReferenceFault)} (answers : Answers d r solve)

include answers

/-- The own children of a level follow the rule when each of them does. -/
private theorem Answers.itemsFollow {level : Level} {outer : List Level} {scope : List Item}
    {scopes : List (List Item)} (hscopes : Scopes solve (level :: outer) (scope :: scopes))
    (each : ∀ own ∈ level.own, ∀ {place : Place} {path : String} {x : Item},
      resolveItem d solve level outer place path own = .ok x →
        ItemFollows TakesFirsts r (rootPath (level :: outer)) (scope :: scopes)
          level.inherited own x) :
    ∃ kept, ItemsFollow TakesFirsts r (rootPath (level :: outer)) (scope :: scopes)
        level.inherited level.own kept ∧
      scope = kept ++ undefinedItems level.own level.inherited := by
  cases hscopes with
  | cons here _ =>
      obtain ⟨kept, split, children⟩ := resolveLevel_ok here
      refine ⟨kept, ?_, split⟩
      have follow : List.Forall₂ (ItemFollows TakesFirsts r (rootPath (level :: outer))
          (scope :: scopes) level.inherited) level.own kept := by
        refine (forall₂_of_range children).imp ?_
        rintro own x ⟨i, hown, -, hx⟩
        obtain ⟨own', hown', hx⟩ := answers.closed.child hx
        obtain rfl := Option.some.inj (hown.symm.trans hown')
        exact each own (List.mem_of_getElem? hown) hx
      exact .of_forall₂ follow

/-- **A resolved child follows the rule**, by induction over the described child.  The levels around
it change with every cluster, so they are not fixed. -/
theorem Answers.itemFollows (own : Item) : ∀ {level : Level} {outer : List Level}
    {scopes : List (List Item)}, Scopes solve (level :: outer) scopes →
      ∀ {place : Place} {path : String} {x : Item},
        resolveItem d solve level outer place path own = .ok x →
          ItemFollows TakesFirsts r (rootPath (level :: outer)) scopes level.inherited own x := by
  induction own using Item.induct with
  | register own =>
      intro level outer scopes hscopes place path x h
      obtain ⟨base, hbase, h⟩ := bind_eq_ok.mp h
      obtain ⟨resolved, hresolved, h⟩ := bind_eq_ok.mp h
      obtain rfl := Except.ok.inj h
      rw [ofExcept_eq] at hresolved
      obtain ⟨referent, sources⟩ := answers.sourcesOf_itemBase hscopes hbase
      obtain ⟨fieldsFollow, fields, rfl⟩ := resolveRegister_ok hresolved
      have attributes := sources.merged.registerFrom own sources.kind
      exact .register sources (attributes.withFields fields) fieldsFollow
  | cluster own children ih =>
      intro level outer scopes hscopes place path x h
      obtain ⟨base, hbase, h⟩ := bind_eq_ok.mp h
      obtain ⟨resolved, hresolved, h⟩ := bind_eq_ok.mp h
      obtain ⟨referent, sources⟩ := answers.sourcesOf_itemBase hscopes hbase
      have attributes := sources.merged.clusterFrom own sources.kind
      -- The children see what they resolve to as the innermost scope.
      have inner := Scopes.cons hresolved hscopes
      obtain ⟨kept, follow, rfl⟩ := answers.itemsFollow inner fun c hc {_ _ _} hx => ih c hc inner hx
      have cluster := ItemFollows.cluster sources attributes follow
      cases hinfo : base.bind asClusterInfo? with
      | none =>
          rw [hinfo] at h cluster
          obtain rfl := Except.ok.inj h
          exact cluster
      | some b =>
          rw [hinfo] at h cluster
          obtain rfl := Except.ok.inj h
          exact cluster

/-- **A resolved peripheral follows the rule.** -/
theorem Answers.peripheralFollows {i : Nat} {p q : Peripheral}
    (h : resolvePeripheralBody d solve i p = .ok q) : PeripheralFollows TakesFirsts r p q := by
  obtain ⟨base, children, hbase, hchildren, rfl⟩ := resolvePeripheralBody_ok h
  obtain ⟨rfl, found⟩ := answers.basePeripheral_ok hbase
  have scopes := Scopes.cons hchildren .nil
  obtain ⟨kept, follow, split⟩ := answers.itemsFollow scopes fun c _ {_ _ _} hx =>
    answers.itemFollows c scopes hx
  refine ⟨found, ?_, kept, follow, split⟩
  cases hderived : p.derivedFrom with
  | none =>
      have attributes := (PeripheralFrom.alone p).withChildren children
      rwa [show { p with derivedFrom := none } = p by rw [← hderived]] at attributes
  | some target =>
      rw [hderived] at found
      obtain ⟨b, hb⟩ := Option.isSome_iff_exists.mp (found rfl)
      rw [hb]
      exact ((PeripheralFrom.alone p).behind b).withChildren children

end Nodes

/-- **Resolved descriptions follow the rule of inheritance.**  Registers take over the first
field of each name that they do not define, which is all of them exactly when the
names are distinct. -/
theorem resolve_inherits {d r : Device} (h : resolve d = .ok r) : Inherits TakesFirsts d r := by
  obtain ⟨device, solve, answers⟩ := answers_of_resolve h
  exact ⟨device, answers.each.imp fun _ _ ⟨_, hq⟩ => answers.peripheralFollows hq⟩

/-! ### A register that derives from twins

Two fields of one name are allowed: one is read and the other one is written.  A register that
derives from a register with such fields gets the first of the two only. -/

/-- A field of one bit. -/
def bitField (name : String) (bit : Word) (access : Access) : Field where
  name := name
  derivedFrom := none
  description := none
  bitRange := some ⟨bit, bit⟩
  access := some access
  writeEffect := none
  writeConstraint := none
  readEffect := none
  dimension := none
  enumeratedSets := []

/-- A register of which nothing but its place is said. -/
def plainRegister (name : String) (offset : Word) (derivedFrom : Option String)
    (fields : List Field) : Register where
  name := name
  derivedFrom := derivedFrom
  displayName := none
  description := none
  alternateGroup := none
  alternateRegister := none
  addressOffset := some offset
  properties := .empty
  dimension := none
  writeEffect := none
  writeConstraint := none
  readEffect := none
  fields := fields

/-- A device with one peripheral and these registers. -/
def oneBlock (registers : List Register) : Device where
  name := "D"
  vendor := none
  version := none
  description := none
  addressUnitBits := none
  width := none
  properties := .empty
  peripherals := [
    { name := "P"
      derivedFrom := none
      version := none
      description := none
      groupName := none
      prependToName := none
      appendToName := none
      baseAddress := some 0
      properties := .empty
      dimension := none
      addressBlocks := []
      interrupts := []
      children := registers.map .register }]

/-- The two views of one name that a read and a write see, on different bits. -/
def twinFields : List Field := [bitField "F" 0 .readOnly, bitField "F" 1 .writeOnly]

/-- A register with twin fields, and one that derives from it. -/
def twins : Device :=
  oneBlock [plainRegister "A" 0 none twinFields, plainRegister "B" 4 (some "A") []]

/-- What `twins` resolves to: the second register has lost a twin. -/
def twinsResolved : Device :=
  oneBlock [plainRegister "A" 0 none twinFields, plainRegister "B" 4 none (twinFields.take 1)]

theorem resolve_twins : resolve twins = .ok twinsResolved := by
  rfl

theorem resolve_inherits_twins :
    resolve twins = .ok twinsResolved ∧ Inherits TakesFirsts twins twinsResolved :=
  ⟨resolve_twins, resolve_inherits resolve_twins⟩

/-- **A register does not take over all fields of its base.** -/
theorem resolve_not_takesAll : ¬ ∀ d r, resolve d = .ok r → Inherits TakesAll d r := by
  intro all
  cases (all twins twinsResolved resolve_twins).peripherals with
  | cons follows _ =>
      obtain ⟨kept, items, split⟩ := follows.children
      -- Both registers are own ones of the peripheral, which has no base.
      cases items with
      | cons _ items =>
          cases items with
          | cons second items =>
              cases items
              obtain ⟨-, rfl⟩ : _ ∧ Item.register _ = _ := by
                simpa [twinsResolved, oneBlock, undefinedItems] using split
              cases second with
              | register sources _ fields =>
                  have named := sources.named.trans
                    (show _ = some (Item.register (plainRegister "A" 0 none twinFields)) from rfl)
                  have counterpart := sources.inherits.trans (show _ = none from rfl)
                  have merged := sources.merged
                  rw [named, counterpart] at merged
                  cases merged
                  obtain ⟨kept, appended, keep, takes, split⟩ := fields.split
                  cases keep
                  -- One field is not the two of the base.
                  rw [takes] at split
                  exact absurd (congrArg List.length split) (by decide)


end ChipMap.Inheritance
