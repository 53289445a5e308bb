import ChipMap.Proofs.Description.Item
import ChipMap.Proofs.Inheritance.FieldRule
import ChipMap.Proofs.Inheritance.Merged

/-!
# What resolution establishes

A law of resolved nodes often has the same form: **it holds of a node that derives from nothing, and
the absent attributes that a node takes over keep it.**  `Established` states the form for one kind
of node and `Laws` for all kinds.  `Laws.resolve_done` then says that the law holds of every node of
a resolved description, at any depth.

Such laws are that no node has a reference left, that every node has a position, and that every
range of bits has a bit.  Each of them is a value of `Laws` whose fields are short, since they are
about the merge of two nodes and not about the resolution.

### What is load-bearing

A resolved node may be the referent of another one, so the induction is on the depth of the direct
resolution and not on the description.  What a level inherits is resolved, what it owns is not
(`Laws.LevelGood`); a look-up passes both on as they are.

Described nodes and resolved ones have laws of their own.  A described node may lack what a resolved
one has to have, as long as it has a reference; the law of a described node then says just that.
-/

namespace ChipMap.Inheritance

open Description

/-- **A law that resolution establishes of one kind of node**: what the described nodes have, and
what the resolved ones have.  The three implications are about `orElse` and about a node that stays
alone. -/
structure Established (α : Type) (derivedFrom : α → Option String) (plain : α → α)
    (orElse : α → α → α) where
  /-- What a described node has. -/
  raw : α → Prop
  /-- What a resolved node has. -/
  done : α → Prop
  /-- A node that derives from nothing. -/
  alone : ∀ {a}, raw a → derivedFrom a = none → done (plain a)
  /-- A node with a resolved base. -/
  behind : ∀ {a b}, raw a → done b → done (orElse a b)
  /-- Two resolved nodes merged. -/
  merge : ∀ {a b}, done a → done b → done (orElse a b)

/-- The law that says nothing.  It is for the kinds of nodes that a law is not about. -/
def Established.trivial {α : Type} {derivedFrom : α → Option String} {plain : α → α}
    {orElse : α → α → α} : Established α derivedFrom plain orElse where
  raw := fun _ => True
  done := fun _ => True
  alone := fun _ _ => True.intro
  behind := fun _ _ => True.intro
  merge := fun _ _ => True.intro

/-- **Laws for all kinds of nodes.**  The law of a register does not look at its fields,
and that of a peripheral not at its children. -/
structure Laws where
  field : Established Field (·.derivedFrom) (fun f => { f with derivedFrom := none }) Field.orElse
  register : Established Register (·.derivedFrom) (fun r => { r with derivedFrom := none })
    Register.orElse
  cluster : Established ClusterInfo (·.derivedFrom) (fun c => { c with derivedFrom := none })
    ClusterInfo.orElse
  peripheral : Established Peripheral (·.derivedFrom) (fun p => { p with derivedFrom := none })
    Peripheral.orElse
  withFields : ∀ {r fields}, register.done r → register.done { r with fields }
  withChildren : ∀ {p children}, peripheral.done p → peripheral.done { p with children }

namespace Laws

variable (L : Laws)

/-- The laws of the described nodes hold of a register or cluster, at any depth. -/
def RawItem (item : Item) : Prop :=
  item.All (fun r => L.register.raw r ∧ ∀ f ∈ r.fields, L.field.raw f) L.cluster.raw

/-- The laws of the resolved nodes hold of a register or cluster, at any depth. -/
def DoneItem (item : Item) : Prop :=
  item.All (fun r => L.register.done r ∧ ∀ f ∈ r.fields, L.field.done f) L.cluster.done

/-- The laws of the described nodes hold of a peripheral with all its nodes. -/
def RawPeripheral (p : Peripheral) : Prop :=
  L.peripheral.raw p ∧ ∀ c ∈ p.children, L.RawItem c

/-- The laws of the resolved nodes hold of a peripheral with all its nodes. -/
def DonePeripheral (p : Peripheral) : Prop :=
  L.peripheral.done p ∧ ∀ c ∈ p.children, L.DoneItem c

/-- **A level owns described children and inherits resolved ones.** -/
structure LevelGood (level : Level) : Prop where
  own : ∀ c ∈ level.own, L.RawItem c
  inherited : ∀ c ∈ level.inherited, L.DoneItem c

variable {L}

/-! ### Fields and merged nodes -/

theorem mem_of_fieldNamed? {fields : List Field} {name : String} {f : Field}
    (h : fieldNamed? fields name = some f) : f ∈ fields := List.mem_of_find?_eq_some h

theorem mem_of_itemNamed? {items : List Item} {name : String} {x : Item}
    (h : itemNamed? items name = some x) : x ∈ items := List.mem_of_find?_eq_some h

/-- **A resolved field keeps the law**, by induction on how deep references are followed.  The
referent of a field may be an own field or an inherited one. -/
theorem resolveField_done {s : FieldScope} (own : ∀ f ∈ s.own, L.field.raw f)
    (inherited : ∀ f ∈ s.inherited, L.field.done f) :
    ∀ {fuel : Nat} {underway : List Nat} {i : Nat} {f : Field},
      resolveField s fuel underway i = .ok f → L.field.done f := by
  have withInherited {f : Field} (hf : L.field.done f) : L.field.done (s.withInherited f) := by
    unfold FieldScope.withInherited
    cases found : fieldNamed? s.inherited f.name with
    | none => exact hf
    | some g => exact L.field.merge hf (inherited g (mem_of_fieldNamed? found))
  intro fuel
  induction fuel with
  | zero =>
      intro underway i f h
      cases h
  | succ fuel ih =>
      intro underway i f h
      obtain ⟨o, ho, h⟩ := resolveField_cases h
      have raw := own o (List.mem_of_getElem? ho)
      rcases h with ⟨plain, rfl⟩ | ⟨target, referent, -, found, rfl⟩
      · exact withInherited (L.field.alone raw plain)
      · refine withInherited (L.field.behind raw ?_)
        rcases found with ⟨j, -, hj⟩ | ⟨-, hj⟩
        · exact ih hj
        · exact inherited referent (mem_of_fieldNamed? hj)

theorem mem_of_mem_appendNewNames {own base : List Field} {f : Field}
    (h : f ∈ appendNewNames own base) : f ∈ own ∨ f ∈ base := by
  induction base generalizing own with
  | nil => exact .inl h
  | cons b rest ih =>
      rw [appendNewNames] at h
      split at h
      · rcases ih h with h | h
        · exact .inl h
        · exact .inr (List.mem_cons_of_mem _ h)
      · rcases ih h with h | h
        · rcases List.mem_append.mp h with h | h
          · exact .inl h
          · exact .inr (List.mem_singleton.mp h ▸ List.mem_cons_self)
        · exact .inr (List.mem_cons_of_mem _ h)

/-- **A resolved register keeps the laws.**  Without a base it derives from nothing. -/
theorem resolveRegister_done {own r : Register} {base : Option Register} {path : String}
    (raw : L.register.raw own ∧ ∀ f ∈ own.fields, L.field.raw f)
    (alone : base = none → own.derivedFrom = none)
    (hbase : ∀ b ∈ base, L.register.done b ∧ ∀ f ∈ b.fields, L.field.done f)
    (h : resolveRegister own base path = .ok r) :
    L.register.done r ∧ ∀ f ∈ r.fields, L.field.done f := by
  obtain ⟨fields, hfields, h⟩ := bind_eq_ok.mp h
  have each : ∀ f ∈ fields, L.field.done f := by
    intro f hf
    obtain ⟨i, -, hi⟩ := exists_of_mapM_eq_ok hfields hf
    refine resolveField_done raw.2 ?_ hi
    cases base with
    | none => exact fun f hf => nomatch hf
    | some b => exact (hbase b rfl).2
  cases base with
  | none =>
      cases Except.ok.inj h
      exact ⟨L.withFields (L.register.alone raw.1 (alone rfl)), each⟩
  | some b =>
      cases Except.ok.inj h
      refine ⟨L.withFields (L.register.behind raw.1 (hbase b rfl).1), ?_⟩
      intro f hf
      rcases mem_of_mem_appendNewNames hf with hf | hf
      · exact each f hf
      · exact (hbase b rfl).2 f hf

/-- **Merged nodes keep the laws**, by induction over the rule they are merged by. -/
theorem mergeItem_done (own : Item) : ∀ {path : String} {base merged : Item}, L.DoneItem own →
    L.DoneItem base → mergeItem path base own = .ok merged → L.DoneItem merged := by
  induction own using Item.induct with
  | register own =>
      intro path base merged hown hbase h
      obtain ⟨b, rfl, rfl⟩ := mergeItem_register_ok.mp h
      have hown := hown.of_register
      have hbase := hbase.of_register
      refine .register ⟨L.withFields (L.register.merge hown.1 hbase.1), ?_⟩
      intro f hf
      -- A field is one of the node, merged or not, or one of the base.
      rcases mem_of_mem_appendNewNames hf with hf | hf
      · obtain ⟨g, hg, rfl⟩ := List.mem_map.mp hf
        cases found : fieldNamed? b.fields g.name with
        | none => exact hown.2 g hg
        | some b' => exact L.field.merge (hown.2 g hg) (hbase.2 b' (mem_of_fieldNamed? found))
      · exact hbase.2 f hf
  | cluster own children ih =>
      intro path base merged hown hbase h
      obtain ⟨b, inherited, kept, rfl, hkept, rfl⟩ := mergeItem_cluster_ok.mp h
      have hown := hown.of_cluster
      have hbase := hbase.of_cluster
      refine .cluster (L.cluster.merge hown.1 hbase.1) ?_
      intro c hc
      rcases List.mem_append.mp hc with hc | hc
      · obtain ⟨own', listed, step⟩ := exists_of_mapM_eq_ok hkept hc
        rcases mergeChild_ok.mp step with ⟨-, rfl⟩ | ⟨other, named, merged⟩
        · exact hown.2 own' listed
        · exact ih own' listed (hown.2 own' listed) (hbase.2 other (mem_of_itemNamed? named)) merged
      · exact hbase.2 c (List.mem_filter.mp hc).1

/-! ### Look-ups -/

/-- **Solvers whose answers keep the laws**: peripherals everywhere, children at levels that own
described children and inherit resolved ones. -/
structure Kept (L : Laws) (solve : Solvers (Except ReferenceFault)) : Prop where
  peripheral : ∀ {i q}, solve.peripheral i = .ok q → L.DonePeripheral q
  child : ∀ {levels i x}, (∀ level ∈ levels, L.LevelGood level) →
    solve.child levels i = .ok x → L.DoneItem x

theorem DoneItem.children {item : Item} (h : L.DoneItem item) : ∀ c ∈ item.children, L.DoneItem c :=
  Item.All.children h

theorem descend_done {names : List String} : ∀ {item x : Item}, L.DoneItem item →
    descend item names = some x → L.DoneItem x := by
  induction names with
  | nil =>
      intro item x hitem h
      cases Option.some.inj h
      exact hitem
  | cons name rest ih =>
      intro item x hitem h
      rw [descend] at h
      cases found : itemNamed? item.children name with
      | none => rw [found] at h; cases h
      | some child =>
          rw [found] at h
          exact ih (hitem.children child (mem_of_itemNamed? found)) h

section Steps

variable {d : Device} {solve : Solvers (Except ReferenceFault)} (kept : Kept L solve)

include kept

theorem basePeripheral_done {p : Peripheral} {base : Option Peripheral}
    (h : basePeripheral d solve p = .ok base) : ∀ b ∈ base, L.DonePeripheral b := by
  unfold basePeripheral at h
  split at h
  · cases Except.ok.inj h
    exact fun b hb => nomatch hb
  · split at h
    · next j _ =>
      cases hj : solve.peripheral j with
      | error e => rw [hj] at h; cases h
      | ok q =>
          rw [hj] at h
          cases Except.ok.inj h
          rintro b ⟨⟩
          exact kept.peripheral hj
    · cases h

variable {level : Level} {outer : List Level}

theorem resolveLevel_done (good : ∀ l ∈ level :: outer, L.LevelGood l) {scope : List Item}
    (h : resolveLevel solve level outer = .ok scope) : ∀ c ∈ scope, L.DoneItem c := by
  obtain ⟨resolved, hresolved, h⟩ := bind_eq_ok.mp h
  cases Except.ok.inj h
  intro c hc
  rcases List.mem_append.mp hc with hc | hc
  · obtain ⟨i, -, hi⟩ := exists_of_mapM_eq_ok hresolved hc
    exact kept.child good hi
  · exact (good level List.mem_cons_self).inherited c (List.mem_filter.mp hc).1

theorem followFrom_done (good : ∀ l ∈ level :: outer, L.LevelGood l) {names : List String}
    {found : Option Item} (h : followFrom solve level outer names = .ok found) :
    ∀ x ∈ found, L.DoneItem x := by
  cases names with
  | nil =>
      cases Except.ok.inj h
      exact fun x hx => nomatch hx
  | cons first rest =>
      obtain ⟨first', hfirst, h⟩ := bind_eq_ok.mp h
      cases first' with
      | none =>
          cases Except.ok.inj h
          exact fun x hx => nomatch hx
      | some item =>
          have hitem : L.DoneItem item := by
            unfold findInLevel at hfirst
            split at hfirst
            · next i _ =>
              cases hi : solve.child (level :: outer) i with
              | error e => rw [hi] at hfirst; cases hfirst
              | ok x =>
                  rw [hi] at hfirst
                  cases Except.ok.inj hfirst
                  exact kept.child good hi
            · have found := Except.ok.inj hfirst
              exact (good level List.mem_cons_self).inherited item (mem_of_itemNamed? found)
          intro x hx
          exact descend_done hitem ((Except.ok.inj h).trans hx)

theorem lookupLevels_done {names : List String} {levels : List Level} :
    (∀ l ∈ levels, L.LevelGood l) → ∀ {found : Option Item},
      lookupLevels solve names levels = .ok found → ∀ x ∈ found, L.DoneItem x := by
  induction levels with
  | nil =>
      intro good found h
      cases Except.ok.inj h
      exact fun x hx => nomatch hx
  | cons level outer ih =>
      intro good found h
      have later := @ih fun l hl => good l (List.mem_cons_of_mem _ hl)
      obtain ⟨here, hhere, h⟩ := bind_eq_ok.mp h
      cases here with
      | some item =>
          cases Except.ok.inj h
          exact followFrom_done kept good hhere
      | none =>
          dsimp only at h
          split at h
          · split at h
            · exact followFrom_done kept good h
            · cases Except.ok.inj h
              exact fun x hx => nomatch hx
          · exact later h

variable (raw : ∀ p ∈ d.peripherals, L.RawPeripheral p)

include raw

/-- The level of a peripheral owns its described children and inherits those of its resolved
base. -/
theorem levelGood_ofPeripheral {i : Nat} {p : Peripheral} {base : Option Peripheral}
    (hp : p ∈ d.peripherals) (h : basePeripheral d solve p = .ok base) :
    L.LevelGood (Level.ofPeripheral i p base) := by
  refine ⟨(raw p hp).2, ?_⟩
  cases base with
  | none => exact fun c hc => nomatch hc
  | some b => exact (basePeripheral_done kept h b rfl).2

theorem lookupElsewhere_done {levels : List Level} {names : List String} {found : Option Item}
    (h : lookupElsewhere d solve levels names = .ok found) : ∀ x ∈ found, L.DoneItem x := by
  unfold lookupElsewhere at h
  split at h
  · split at h
    · cases Except.ok.inj h
      exact fun x hx => nomatch hx
    · split at h
      · cases Except.ok.inj h
        exact fun x hx => nomatch hx
      · split at h
        · cases Except.ok.inj h
          exact fun x hx => nomatch hx
        · next p hp =>
          obtain ⟨base, hbase, h⟩ := bind_eq_ok.mp h
          refine followFrom_done kept (fun l hl => ?_) h
          obtain rfl := List.mem_singleton.mp hl
          exact levelGood_ofPeripheral kept raw (List.mem_of_getElem? hp) hbase
  · cases Except.ok.inj h
    exact fun x hx => nomatch hx

/-- **A referent is resolved.** -/
theorem referentOf_done {levels : List Level} (good : ∀ l ∈ levels, L.LevelGood l) {item : Item}
    {path : String} {referent : Option Item}
    (h : referentOf d solve levels item path = .ok referent) :
    ∀ x ∈ referent, L.DoneItem x := by
  unfold referentOf at h
  split at h
  · cases Except.ok.inj h
    exact fun x hx => nomatch hx
  · obtain ⟨found, hfound, h⟩ := bind_eq_ok.mp h
    split at h
    · cases Except.ok.inj h
      rintro x ⟨⟩
      obtain ⟨near, hnear, hfound⟩ := bind_eq_ok.mp hfound
      cases near with
      | some item =>
          cases Except.ok.inj hfound
          exact lookupLevels_done kept good hnear found rfl
      | none =>
          obtain ⟨far, hfar, hfound⟩ := bind_eq_ok.mp hfound
          cases far with
          | none => cases hfound
          | some item =>
              cases Except.ok.inj hfound
              exact lookupElsewhere_done kept raw hfar found rfl
    · cases h

/-- **The base of a node is resolved.** -/
theorem itemBase_done (good : ∀ l ∈ level :: outer, L.LevelGood l) {item : Item} {path : String}
    {base : Option Item} (h : itemBase d solve level outer path item = .ok base) :
    ∀ b ∈ base, L.DoneItem b := by
  obtain ⟨referent, hreferent, h⟩ := bind_eq_ok.mp h
  have done := referentOf_done kept raw good hreferent
  rw [ofExcept_eq] at h
  have counterpart : ∀ c ∈ itemNamed? level.inherited item.name, L.DoneItem c := fun c hc =>
    (good level List.mem_cons_self).inherited c (mem_of_itemNamed? hc)
  generalize itemNamed? level.inherited item.name = named at h counterpart
  cases referent with
  | none =>
      cases named with
      | none =>
          cases Except.ok.inj h
          exact fun b hb => nomatch hb
      | some c =>
          rw [baseOf] at h
          split at h
          · cases Except.ok.inj h
            exact counterpart
          · cases h
  | some x =>
      cases named with
      | none =>
          cases Except.ok.inj h
          exact done
      | some c =>
          rw [baseOf] at h
          cases hm : mergeItem path c x with
          | error e => rw [hm] at h; cases h
          | ok m =>
              rw [hm] at h
              cases Except.ok.inj h
              rintro b ⟨⟩
              exact mergeItem_done x (done x rfl) (counterpart c rfl) hm

/-! ### Nodes -/

/-- **A resolved child keeps the laws.**  The kind of its base is that of the child, so a
child without a base of its own kind derives from nothing. -/
theorem resolveItem_done (good : ∀ l ∈ level :: outer, L.LevelGood l) {place : Place}
    {path : String} {item x : Item} (hitem : L.RawItem item)
    (h : resolveItem d solve level outer place path item = .ok x) : L.DoneItem x := by
  obtain ⟨base, hbase, h⟩ := bind_eq_ok.mp h
  have done := itemBase_done kept raw good hbase
  obtain ⟨kind, plain⟩ := itemBase_kind hbase
  cases item with
  | register own =>
      obtain ⟨r, hr, h⟩ := bind_eq_ok.mp h
      cases Except.ok.inj h
      rw [ofExcept_eq] at hr
      refine .register (resolveRegister_done hitem.of_register ?_ ?_ hr)
      · intro none
        cases base with
        | none => exact plain rfl
        | some b =>
            cases b with
            | register _ => cases none
            | cluster _ _ => cases kind _ rfl
      · intro b hb
        obtain ⟨x, rfl, hx⟩ := Option.bind_eq_some_iff.mp hb
        cases x with
        | register b' => exact Option.some.inj hx ▸ (done _ rfl).of_register
        | cluster _ _ => cases hx
  | cluster own children =>
      obtain ⟨resolved, hresolved, h⟩ := bind_eq_ok.mp h
      obtain ⟨rawOwn, rawChildren⟩ := hitem.of_cluster
      -- The new level holds the children as described, and those that the base gives, which are
      -- done.
      have inner : ∀ l ∈ ⟨place, path, children, inheritedChildren base⟩ :: level :: outer,
          L.LevelGood l := by
        intro l hl
        rcases List.mem_cons.mp hl with rfl | hl
        · refine ⟨rawChildren, ?_⟩
          cases base with
          | none => exact fun c hc => nomatch hc
          | some b => exact (done b rfl).children
        · exact good l hl
      have each := resolveLevel_done kept inner hresolved
      cases base with
      | none =>
          cases Except.ok.inj h
          exact .cluster (L.cluster.alone rawOwn (plain rfl)) each
      | some b =>
          cases b with
          | register _ => cases kind _ rfl
          | cluster info _ =>
              cases Except.ok.inj h
              exact .cluster (L.cluster.behind rawOwn (done _ rfl).of_cluster.1) each

/-- **A resolved peripheral keeps the laws.** -/
theorem resolvePeripheralBody_done {i : Nat} {p q : Peripheral} (hp : p ∈ d.peripherals)
    (h : resolvePeripheralBody d solve i p = .ok q) : L.DonePeripheral q := by
  obtain ⟨base, hbase, h⟩ := bind_eq_ok.mp h
  obtain ⟨children, hchildren, h⟩ := bind_eq_ok.mp h
  have good : ∀ l ∈ [Level.ofPeripheral i p base], L.LevelGood l := by
    intro l hl
    obtain rfl := List.mem_singleton.mp hl
    exact levelGood_ofPeripheral kept raw hp hbase
  have each := resolveLevel_done kept good hchildren
  cases base with
  | none =>
      cases Except.ok.inj h
      -- Without a base the peripheral derives from nothing, for a reference that leads nowhere is a
      -- fault.
      have plain : p.derivedFrom = none := by
        unfold basePeripheral at hbase
        split at hbase
        · assumption
        · split at hbase
          · next j _ =>
            cases hj : solve.peripheral j with
            | error e => rw [hj] at hbase; cases hbase
            | ok _ => rw [hj] at hbase; cases hbase
          · cases hbase
      have alone := L.peripheral.alone (raw p hp).1 plain
      rw [show { p with derivedFrom := none } = p by rw [← plain]] at alone
      exact ⟨L.withChildren alone, each⟩
  | some b =>
      cases Except.ok.inj h
      exact ⟨L.withChildren (L.peripheral.behind (raw p hp).1
        (basePeripheral_done kept hbase b rfl).1), each⟩

end Steps

/-- **The direct resolution keeps the laws**, by induction on its depth. -/
theorem direct_kept {d : Device} (raw : ∀ p ∈ d.peripherals, L.RawPeripheral p) (n : Nat) :
    Kept L (direct d n) := by
  induction n with
  | zero =>
      refine ⟨?_, ?_⟩
      · intro i q h
        cases h
      · intro levels i x _ h
        cases h
  | succ n ih =>
      refine ⟨?_, ?_⟩
      · intro i q h
        obtain ⟨p, found, h⟩ := direct_peripheral_ok.mp h
        exact resolvePeripheralBody_done ih raw (List.mem_of_getElem? found) h
      · intro levels i x good h
        cases levels with
        | nil => cases h
        | cons level outer =>
            obtain ⟨item, found, h⟩ := direct_child_ok.mp h
            have hitem := (good level List.mem_cons_self).own item (List.mem_of_getElem? found)
            exact resolveItem_done ih raw good hitem h

/-- **Resolution establishes the laws** of every node of the result, at any depth.  Nothing about
the references has to be known. -/
theorem resolve_done {d r : Device} (raw : ∀ p ∈ d.peripherals, L.RawPeripheral p)
    (h : resolve d = .ok r) : ∀ q ∈ r.peripherals, L.DonePeripheral q := by
  obtain ⟨-, n, all⟩ := resolve_direct h
  intro q hq
  obtain ⟨i, -, hi⟩ := exists_of_mapM_eq_ok (mapM_eq_ok.mpr all) hq
  exact (direct_kept raw n).peripheral hi

end Laws

end ChipMap.Inheritance
