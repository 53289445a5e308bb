import ChipMap.Proofs.Order.OfText

/-!
# Canonical names

Names that collide get numbers, so the names of a level depend on the order in which its nodes claim
them.  The children of a level are **canonical** when each of them gets the same names in any order
of the children (`Canonical`).  That is so **exactly when no two children become one element**, of
one kind, identifier and address (`canonical_iff`): of two that do, the first one in the document is
the one that keeps the name (`not_canonical_tied`).  This is said of the levels of a resolved
description, and then of two orders of a document (`ofText_named`).

### What is load-bearing

The names that a level gives out are the same in any order, since they depend on sorted keys only;
what an order decides is who of the owners of one key comes first.  A child in front of the others
is the first owner of each of its keys (`exists_first`).  Fields of one register share no bit, so
they are canonical in every document that has a map.

A node of a map does not say whose it is.  So its elements are followed from the children that build
them: the nodes are renamed together with their owners, and are the final elements one by one
(`renamed_nodes`).

Peripherals, registers with clusters, and fields claim their names in one way but are built by
different functions.  `NodeView` is what the three types of nodes have in common, and `NamedLevel`
is what is proved of each of them.
-/

namespace ChipMap.Map

open Description (ItemKind Properties Item ClusterInfo)

/-! ### Elements and their owners -/

/-- An element under its identifier, if its name has one. -/
def NodeElement.identified? (e : NodeElement) : Option NodeElement :=
  (Name.identifier? e.name).map fun name => { e with name }

theorem NodeElement.identified?_of_becomes {e built : NodeElement} (h : Becomes e built) :
    e.identified? = some built := by
  obtain ⟨kind, identifier, address⟩ := h
  obtain ⟨_, _, _⟩ := built
  simp only at kind address
  rw [identified?, identifier, Option.map_some, kind, address]

theorem filterMap_identified? {elements built : List NodeElement}
    (h : List.Forall₂ Becomes elements built) :
    elements.filterMap NodeElement.identified? = built := by
  induction h with
  | nil => rfl
  | cons first _ ih =>
      rw [List.filterMap_cons_some (NodeElement.identified?_of_becomes first), ih]

def NodeElement.rename (e : NodeElement) (name : String) : NodeElement := { e with name }

/-- **An element of a level and whose it is.**  The number tells the elements of one child apart. -/
structure Owned where
  /-- The name that the child has in the document. -/
  child : String
  /-- The number of the element among those of the child. -/
  number : Nat
  /-- The element. -/
  element : NodeElement
deriving DecidableEq, Repr

def Owned.rename (o : Owned) (name : String) : Owned := { o with element := o.element.rename name }

section Level

variable {β : Type} (name : β → String) (elements : β → List NodeElement)

/-- The elements of a child under their identifiers. -/
def claims (c : β) : List NodeElement := (elements c).filterMap NodeElement.identified?

/-- The elements of a child under their identifiers, numbered. -/
def owned (c : β) : List Owned := (claims elements c).zipIdx.map fun e => ⟨name c, e.2, e.1⟩

/-- **The elements of some children under their final names**: sorted by their keys, as a level
sorts its nodes, and renamed in that order. -/
def finalElements (children : List β) : List Owned :=
  Name.renameInOrder claimLe (·.element.key) (·.element.name) Owned.rename
    (children.flatMap (owned name elements))

/-- **Each child gets the same names in any order of the children.** -/
def Canonical (children : List β) : Prop :=
  ∀ children', children.Perm children' →
    (finalElements name elements children').Perm (finalElements name elements children)

/-- **No two children become one element.**  One child may still become the same element twice. -/
def UntiedChildren (children : List β) : Prop :=
  children.Pairwise fun c c' => (claims elements c).Disjoint (claims elements c')

variable {name elements} {children children' : List β} {c : β}

variable (name) in
theorem map_element_owned : (owned name elements c).map Owned.element = claims elements c := by
  rw [owned, List.map_map]
  exact List.zipIdx_map_fst 0 _

theorem mem_claims {o : Owned} (h : o ∈ owned name elements c) : o.element ∈ claims elements c := by
  rw [← map_element_owned name]
  exact List.mem_map_of_mem h

theorem child_of_mem_owned {o : Owned} (h : o ∈ owned name elements c) : o.child = name c := by
  obtain ⟨_, -, rfl⟩ := List.mem_map.mp h
  rfl

/-! ### Untied children are canonical -/

/-- Lists of which at most one is not empty are joined to the same list in any order. -/
theorem flatMap_eq_of_perm {α : Type} {f : β → List α} (p : children.Perm children')
    (single : children.Pairwise fun c c' => f c = [] ∨ f c' = []) :
    children.flatMap f = children'.flatMap f := by
  induction p with
  | nil => rfl
  | cons c _ ih => rw [List.flatMap_cons, List.flatMap_cons, ih (List.pairwise_cons.mp single).2]
  | swap c c' rest =>
      simp only [List.flatMap_cons]
      rcases (List.pairwise_cons.mp single).1 c List.mem_cons_self with none | none
      · rw [none, List.nil_append, List.nil_append]
      · rw [none, List.nil_append, List.nil_append]
  | trans p q ih ih' => exact (ih single).trans (ih' (p.pairwise single Or.symm))

/-- **Untied children get the same names in any order**: each key has one owner, and the elements of
one owner keep their order. -/
theorem finalElements_congr (untied : UntiedChildren elements children)
    (p : children.Perm children') :
    finalElements name elements children' = finalElements name elements children := by
  refine Name.renameInOrder_congr (Name.sortOn_congr claimLe_totalOrder fun k => ?_)
  rw [List.filter_flatMap, List.filter_flatMap]
  refine (flatMap_eq_of_perm p (untied.imp fun {c c'} apart => ?_)).symm
  by_contra both
  obtain ⟨first, second⟩ := not_or.mp both
  obtain ⟨o, ho⟩ := List.exists_mem_of_ne_nil _ first
  obtain ⟨o', ho'⟩ := List.exists_mem_of_ne_nil _ second
  obtain ⟨mem, key⟩ := List.mem_filter.mp ho
  obtain ⟨mem', key'⟩ := List.mem_filter.mp ho'
  have same := NodeElement.key_injective ((of_decide_eq_true key).trans (of_decide_eq_true key').symm)
  exact apart (mem_claims mem) (same ▸ mem_claims mem')

theorem canonical_of_untied (untied : UntiedChildren elements children) :
    Canonical name elements children :=
  fun _ p => .of_eq (finalElements_congr untied p)

/-- Children that look alike in another order get the same names, if they are canonical. -/
theorem Canonical.shuffled {R : β → β → Prop} (canonical : Canonical name elements children)
    (h : Shuffled R children children')
    (like : ∀ c c', R c c' → name c = name c' ∧ elements c = elements c') :
    (finalElements name elements children').Perm (finalElements name elements children) := by
  -- The order may change first, before each child is replaced by the one that is like it.
  have turned : Relation.Comp List.Perm (List.Forall₂ R) children children' :=
    List.forall₂_comp_perm_eq_perm_comp_forall₂ ▸ h
  obtain ⟨between, p, pairs⟩ := turned
  have same : between.map (owned name elements) = children'.map (owned name elements) := by
    refine Name.map_eq_of_forall₂ (pairs.imp fun c c' related => ?_)
    obtain ⟨named, alike⟩ := like c c' related
    rw [owned, owned, claims, claims, named, alike]
  have final : finalElements name elements children' = finalElements name elements between := by
    rw [finalElements, finalElements, List.flatMap_def, List.flatMap_def, same]
  rw [final]
  exact canonical between p

/-! ### Canonical children are untied -/

variable (name elements) in
/-- The keys of a level, sorted. -/
def sortedKeys (children : List β) : List (String × Nat × Nat) :=
  (Name.sortOn claimLe (fun o : Owned => o.element.key)
    (children.flatMap (owned name elements))).map fun o => o.element.key

variable (name elements) in
/-- **The name that the first owner of an element gets.**  It is read off the sorted keys, which are
the same in any order. -/
def firstName (children : List β) (e : NodeElement) : Option String :=
  let keys := sortedKeys name elements children
  (Name.claimAll (keys.map (·.1)))[keys.idxOf e.key]?

theorem firstName_congr (p : children.Perm children') (e : NodeElement) :
    firstName name elements children' e = firstName name elements children e := by
  have same : sortedKeys name elements children = sortedKeys name elements children' :=
    Name.map_key_sortOn claimLe_totalOrder (p.flatMap_right _)
  rw [firstName, firstName, same]

variable (name) in
/-- **A child in front of the others** gets the first name of each of its elements. -/
theorem exists_first {e : NodeElement} (mem : e ∈ claims elements c) (rest : List β) :
    ∃ o ∈ finalElements name elements (c :: rest), o.child = name c ∧
      some o.element.name = firstName name elements (c :: rest) e := by
  have owner : ∃ o ∈ owned name elements c, o.element = e := by
    rw [← map_element_owned name] at mem
    exact List.mem_map.mp mem
  obtain ⟨o, found⟩ : ∃ o, (owned name elements c).find? (fun o => decide (o.element.key = e.key)) =
      some o := by
    obtain ⟨o, ho, rfl⟩ := owner
    exact Option.isSome_iff_exists.mp (List.find?_isSome.mpr ⟨o, ho, by simp⟩)
  have first : (Name.sortOn claimLe (fun o : Owned => o.element.key)
      ((c :: rest).flatMap (owned name elements)))[
        (sortedKeys name elements (c :: rest)).idxOf e.key]? = some o := by
    rw [sortedKeys, Name.getElem?_sortOn claimLe_totalOrder, List.flatMap_cons, List.find?_append,
      found, Option.some_or]
  -- The names are those of the sorted owners, so there is one at this place.
  obtain ⟨inside, -⟩ := List.getElem?_eq_some_iff.mp first
  have names : (sortedKeys name elements (c :: rest)).map (·.1) =
      (Name.sortOn claimLe (fun o : Owned => o.element.key)
        ((c :: rest).flatMap (owned name elements))).map fun o => o.element.name := by
    rw [sortedKeys, List.map_map]
    rfl
  obtain ⟨n, given⟩ : ∃ n, firstName name elements (c :: rest) e = some n := by
    refine ⟨_, List.getElem?_eq_getElem ?_⟩
    rw [names]
    simpa [Name.claimAll] using inside
  have own : o.child = name c := child_of_mem_owned (List.mem_of_find?_eq_some found)
  refine ⟨o.rename n, List.mem_of_getElem? (i := (sortedKeys name elements (c :: rest)).idxOf e.key)
    ?_, own, given.symm⟩
  rw [firstName, names] at given
  rw [finalElements, Name.renameInOrder, List.getElem?_zipWith, first, given]

/-- The final names are distinct, so each of them is of one element. -/
theorem eq_of_final_name {o o' : Owned} (mem : o ∈ finalElements name elements children)
    (mem' : o' ∈ finalElements name elements children) (same : o.element.name = o'.element.name) :
    o = o' := by
  have distinct := @Name.renameInOrder_nodup Owned _ claimLe (·.element.key) (·.element.name)
    Owned.rename (children.flatMap (owned name elements)) fun _ _ => rfl
  exact List.inj_on_of_nodup_map distinct mem mem' (congrArg Name.distinctKey same)

/-- **Canonical children of distinct names are untied**: of two that become one element, each one
is the first owner in some order, so both would get its name. -/
theorem untied_of_canonical (canonical : Canonical name elements children)
    (distinct : (children.map name).Nodup) : UntiedChildren elements children := by
  refine distinct.of_map.pairwise_of_forall_ne fun c hc c' hc' differ => ?_
  intro e mem mem'
  have owner {c : β} (hc : c ∈ children) (mem : e ∈ claims elements c) :
      ∃ o ∈ finalElements name elements children, o.child = name c ∧
        some o.element.name = firstName name elements children e := by
    obtain ⟨before, behind, rfl⟩ := List.append_of_mem hc
    have p : (before ++ c :: behind).Perm (c :: (before ++ behind)) := List.perm_middle
    obtain ⟨o, ho, own, named⟩ := exists_first name mem (before ++ behind)
    exact ⟨o, (canonical _ p).subset ho, own, named.trans (firstName_congr p e)⟩
  obtain ⟨o, ho, own, named⟩ := owner hc mem
  obtain ⟨o', ho', own', named'⟩ := owner hc' mem'
  obtain rfl := eq_of_final_name ho ho' (Option.some.inj (named.trans named'.symm))
  exact differ (List.inj_on_of_nodup_map distinct hc hc' (own.symm.trans own'))

/-- **Children of distinct names are canonical exactly when they are untied.**  With two namesakes
the owners of a name could not be told apart. -/
theorem canonical_iff (distinct : (children.map name).Nodup) :
    Canonical name elements children ↔ UntiedChildren elements children :=
  ⟨fun canonical => untied_of_canonical canonical distinct, canonical_of_untied⟩

end Level

/-! ### The names of a map -/

/-- **A type of nodes** that have a kind, a name and an address. -/
structure NodeView (α : Type) where
  /-- The element that a node is. -/
  element : α → NodeElement
  /-- A node under another name. -/
  rename : α → String → α
  /-- A node under another name is the same element under this name. -/
  element_rename : ∀ x n, element (rename x n) = (element x).rename n

section Named

variable {α β : Type} (view : NodeView α) (name : β → String) {elements : β → List NodeElement}
variable (build : β → Except MapFault (List α))

/-- **A node of a map is an element of a child**: the node that the child builds at the number of
the element, under the name of the element. -/
structure Owned.Is (children : List β) (o : Owned) (x : α) : Prop where
  element : view.element x = o.element
  owner : ∃ c ∈ children, name c = o.child ∧ ∃ built, build c = .ok built ∧
    ∃ y, built[o.number]? = some y ∧ x = view.rename y o.element.name

/-- The nodes that a child builds, and none if it builds none. -/
def builtBy (c : β) : List α :=
  match build c with
  | .ok built => built
  | .error _ => []

/-- The nodes that some children build, each with the name of its child and its number among those
of the child. -/
def ownedNodes (children : List β) : List ((String × Nat) × α) :=
  children.flatMap fun c => (builtBy build c).zipIdx.map fun x => ((name c, x.2), x.1)

/-- The element that a node with an owner is. -/
def NodeView.owned (view : NodeView α) (x : (String × Nat) × α) : Owned :=
  ⟨x.1.1, x.1.2, view.element x.2⟩

variable {name build} {children : List β} {lists : List (List α)}

theorem map_owned_ownedNodes (h : children.mapM build = .ok lists)
    (each : ∀ c ∈ children, ∀ built, build c = .ok built →
      List.Forall₂ (fun e x => Becomes e (view.element x)) (elements c) built) :
    (ownedNodes name build children).map view.owned =
      children.flatMap (owned name elements) := by
  rw [ownedNodes, List.map_flatMap]
  refine List.flatMap_congr fun c hc => ?_
  obtain ⟨built, -, run⟩ := exists_of_forall₂ (mapM_eq_ok.mp h) hc
  have same : claims elements c = built.map view.element :=
    filterMap_identified? (List.forall₂_map_right_iff.mpr (each c hc built run))
  rw [owned, same, builtBy, run, List.zipIdx_map, List.map_map, List.map_map]
  rfl

variable (name) in
theorem map_snd_ownedNodes (h : children.mapM build = .ok lists) :
    (ownedNodes name build children).map Prod.snd = lists.flatten := by
  have same : children.map (builtBy build) = lists.map id := by
    refine Name.map_eq_of_forall₂ ((mapM_eq_ok.mp h).imp fun c built run => ?_)
    rw [builtBy, run, id]
  rw [ownedNodes, List.map_flatMap, ← List.map_id lists, ← same, ← List.flatMap_def]
  refine List.flatMap_congr fun c _ => ?_
  rw [List.map_map]
  exact List.zipIdx_map_fst 0 _

/-- A node with an owner under another name is the element of this name. -/
theorem is_rename {x : (String × Nat) × α} (mem : x ∈ ownedNodes name build children)
    (h : children.mapM build = .ok lists) (n : String) :
    Owned.Is view name build children (view.owned (x.1, view.rename x.2 n))
      (view.rename x.2 n) := by
  obtain ⟨c, hc, mem⟩ := List.mem_flatMap.mp mem
  obtain ⟨⟨y, i⟩, place, rfl⟩ := List.mem_map.mp mem
  obtain ⟨built, -, run⟩ := exists_of_forall₂ (mapM_eq_ok.mp h) hc
  rw [builtBy, run, List.mem_zipIdx_iff_getElem?] at place
  refine ⟨rfl, c, hc, rfl, built, run, y, place, ?_⟩
  rw [NodeView.owned, view.element_rename]
  rfl

/-- **The renamed nodes are the final elements**, one by one: they are renamed together with their
owners. -/
theorem renamed_nodes (h : children.mapM build = .ok lists)
    (each : ∀ c ∈ children, ∀ built, build c = .ok built →
      List.Forall₂ (fun e x => Becomes e (view.element x)) (elements c) built) :
    List.Forall₂ (Owned.Is view name build children) (finalElements name elements children)
      (Name.renameInOrder claimLe (fun x => (view.element x).key)
        (fun x => (view.element x).name) view.rename lists.flatten) := by
  have element (x : (String × Nat) × α) (n : String) :
      view.owned (x.1, view.rename x.2 n) = (view.owned x).rename n := by
    rw [NodeView.owned, view.element_rename]
    rfl
  have node (x : (String × Nat) × α) (n : String) :
      Prod.snd (x.1, view.rename x.2 n) = view.rename x.2 n := rfl
  rw [finalElements, ← map_owned_ownedNodes view h each, ← map_snd_ownedNodes name h,
    ← Name.map_renameInOrder element, ← Name.map_renameInOrder node]
  refine List.forall₂_map_left_iff.mpr (List.forall₂_map_right_iff.mpr ?_)
  exact List.forall₂_same.mpr (Name.forall_mem_renameInOrder fun x hx n _ => is_rename view hx h n)

/-- Nodes of one kind claim their names by name and address. -/
theorem renamed_of_kind {kind : ItemKind} (one : ∀ x, (view.element x).kind = kind)
    (nodes : List α) :
    Name.renameInOrder claimLe (fun x => (view.element x).key) (fun x => (view.element x).name)
        view.rename nodes =
      Name.renameInOrder (Name.lexLe Name.natLe)
        (fun x => ((view.element x).name, (view.element x).address))
        (fun x => (view.element x).name) view.rename nodes :=
  Name.renameInOrder_congr (sortOn_of_kind one nodes).symm

end Named

/-- **The names of a level of a map**, for the function that builds one child and the one that
builds the level. -/
structure NamedLevel {α β : Type} (view : NodeView α) (name : β → String)
    (elements : β → List NodeElement) (build : β → Except MapFault (List α))
    (level : List β → Except MapFault (List α)) (children : List β) : Prop where
  /-- In any order of the children the level is built, and its nodes are the elements of the
  children under the names that these get in that order. -/
  named : ∀ children', children.Perm children' → ∃ nodes, level children' = .ok nodes ∧
    Shuffled (Owned.Is view name build children') (finalElements name elements children') nodes
  /-- The names are those of any order exactly when no two children become one element. -/
  canonical : (children.map name).Nodup →
    (Canonical name elements children ↔ UntiedChildren elements children)

/-- Steps that succeed on some list succeed on it in any order. -/
theorem exists_of_perm {α β ε : Type} {items items' : List β} {f : β → Except ε α} {values : List α}
    (h : items.mapM f = .ok values) (p : items.Perm items') :
    ∃ values', items'.mapM f = .ok values' := by
  obtain ⟨values', h', -⟩ := (Alike.mapM_perm p f).exists_right h
  exact ⟨values', h'⟩

/-! ### Peripherals -/

def Peripheral.view : NodeView Peripheral where
  element := Peripheral.element
  rename p name := { p with name }
  element_rename _ _ := rfl

/-- **The peripherals of a device** are built and named in any order. -/
theorem peripherals_named {d : Description.Device} {device : Device}
    (h : ofDescription d = .ok device) :
    NamedLevel Peripheral.view (·.name) peripheralElements (buildPeripheral d.properties)
      (fun peripherals => (ofDescription { d with peripherals }).map (·.peripherals))
      d.peripherals := by
  refine ⟨fun peripherals p => ?_, canonical_iff⟩
  obtain ⟨id, hid, h⟩ := bind_eq_ok.mp h
  obtain ⟨lists, hlists, -⟩ := bind_eq_ok.mp h
  obtain ⟨lists, hlists⟩ := exists_of_perm hlists p
  refine ⟨_, map_eq_ok.mpr ⟨_, bind_eq_ok.mpr ⟨id, hid, bind_eq_ok.mpr ⟨lists, hlists, rfl⟩⟩, rfl⟩,
    _, renamed_nodes Peripheral.view hlists fun p _ _ => buildPeripheral_becomes, ?_⟩
  rw [renamed_of_kind Peripheral.view fun _ => rfl]
  exact (Name.sortOn_perm _ _ _).symm

/-! ### Registers and clusters -/

def Entry.view : NodeView Entry where
  element := Entry.element
  rename := Entry.rename
  element_rename e name := by cases e <;> rfl

/-- The registers and clusters of a level. -/
def Contents.entries (c : Contents) : List Entry :=
  c.registers.map .register ++ c.clusters.map .cluster

/-- **Arranged entries are the renamed ones**, registers and clusters sorted apart. -/
theorem entries_arrange (entries : List Entry) :
    (arrange entries).entries.Perm (Name.renameInOrder claimLe (fun e => (Entry.view.element e).key)
      (fun e => (Entry.view.element e).name) Entry.view.rename entries) := by
  have named : (fun e => (Entry.view.element e).name) = Entry.name := by
    funext e
    cases e <;> rfl
  rw [named]
  refine .trans ?_ ((registersFirst_perm _).trans
    (.of_eq (Name.renameInOrder_congr (sortOn_registersFirst entries))))
  exact ((Name.sortOn_perm _ _ _).map _).append ((Name.sortOn_perm _ _ _).map _)

/-- **The registers and clusters of a node** are built and named in any order. -/
theorem items_named {parent : String} {outer : Properties} {affix : Affix} {children : List Item}
    {entries : List Entry} (h : buildItems parent outer affix children = .ok entries) :
    NamedLevel Entry.view Item.name (itemElements affix) (buildItem parent outer affix)
      (fun children => (buildItems parent outer affix children).map fun entries =>
        (arrange entries).entries) children := by
  refine ⟨fun children' p => ?_, canonical_iff⟩
  rw [buildItems_eq] at h
  obtain ⟨lists, hlists, -⟩ := map_eq_ok.mp h
  obtain ⟨lists, hlists⟩ := exists_of_perm hlists p
  have built : buildItems parent outer affix children' = .ok lists.flatten := by
    rw [buildItems_eq]
    exact map_eq_ok.mpr ⟨lists, hlists, rfl⟩
  exact ⟨_, map_eq_ok.mpr ⟨_, built, rfl⟩, _,
    renamed_nodes Entry.view hlists fun item _ _ => buildItem_becomes, (entries_arrange _).symm⟩

/-! ### Fields -/

def Field.view : NodeView Field where
  element := Field.element
  rename f name := { f with name }
  element_rename _ _ := rfl

/-- **No two fields of a register begin at one bit**, since none shares a bit with another. -/
theorem fieldAddresses_nodup {register : String} {size : Nat} {defaults : FieldDefaults}
    {fields : List Description.Field} {built : List Field} (small : size ≤ 64)
    (ranged : ∀ f ∈ fields, f.Ranged) (h : buildFields register size defaults fields = .ok built) :
    ((fields.flatMap fieldElements).map (·.address)).Nodup := by
  obtain ⟨each, -, -, disjoint⟩ := buildFields_wellFormed small ranged h
  have starts : (built.map (·.bits.start)).Nodup := by
    refine List.pairwise_map.mpr (disjoint.imp_of_mem fun {f g} hf hg apart same => ?_)
    exact apart f.bits.start ⟨⟨le_rfl, (each f hf).nonempty⟩, same.ge, same ▸ (each g hg).nonempty⟩
  obtain ⟨lists, hlists, h⟩ := bind_eq_ok.mp h
  obtain ⟨rfl, -⟩ := checkFields_ok h
  have becomes : List.Forall₂ (fun e f => Becomes e (Field.element f))
      (fields.flatMap fieldElements) lists.flatten :=
    becomes_flatten hlists fun f _ _ => buildField_becomes
  -- Renaming and sorting keep the bits that the fields begin at.
  rw [Name.map_eq_of_forall₂ (becomes.imp fun _ _ h => h.address.symm)]
  refine List.Perm.nodup_iff ?_ |>.mp starts
  refine ((Name.sortOn_perm _ _ _).map _).trans (Name.renameInOrder_kept ?_ _)
  exact fun _ _ => rfl

/-- Elements at distinct addresses are not tied. -/
theorem untied_of_addresses {es : List NodeElement} (distinct : (es.map (·.address)).Nodup) :
    Untied es :=
  (List.pairwise_map.mp distinct).imp fun differ _ _ _ _ => differ

theorem untiedChildren_of_addresses {β : Type} {elements : β → List NodeElement}
    {children : List β} (distinct : ((children.flatMap elements).map (·.address)).Nodup) :
    UntiedChildren elements children := by
  have place {c : β} {e : NodeElement} (mem : e ∈ claims elements c) :
      ∃ own ∈ elements c, own.address = e.address := by
    obtain ⟨own, hown, found⟩ := List.mem_filterMap.mp mem
    obtain ⟨_, -, rfl⟩ := Option.map_eq_some_iff.mp found
    exact ⟨own, hown, rfl⟩
  rw [List.map_flatMap] at distinct
  refine (List.nodup_flatMap.mp distinct).2.imp fun {c c'} apart e mem mem' => ?_
  obtain ⟨own, hown, same⟩ := place mem
  obtain ⟨own', hown', same'⟩ := place mem'
  exact apart (List.mem_map.mpr ⟨own, hown, same⟩) (List.mem_map.mpr ⟨own', hown', same'⟩)

/-- The registers that a register stands for share the fields that are built of it. -/
theorem exists_fields {parent : String} {outer : Properties} {affix : Affix}
    {r : Description.Register} {built : List Register}
    (h : buildRegister parent outer affix r = .ok built) :
    (fieldContext parent outer r).size ≤ 64 ∧
      ∃ fields, (fieldContext parent outer r).fields r.fields = .ok fields ∧
        ∀ x ∈ built, x.fields = fields := by
  obtain ⟨fields, bounds, hfields, placed⟩ := buildRegister_ok h
  refine ⟨bounds.2, fields, hfields, fun x hx => ?_⟩
  obtain ⟨p, -, name, -, rfl⟩ := exists_of_forall₂ placed.flip hx
  rfl

/-- **The fields of a register** are built and named in any order, and none of their names
depends on it. -/
theorem fields_named {c : FieldContext} {fields : List Description.Field} {built : List Field}
    (small : c.size ≤ 64) (ranged : ∀ f ∈ fields, f.Ranged) (h : c.fields fields = .ok built) :
    NamedLevel Field.view (·.name) fieldElements c.field c.fields fields ∧
      Canonical (·.name) fieldElements fields := by
  have distinct := fieldAddresses_nodup small ranged h
  refine ⟨⟨fun fields' p => ?_, canonical_iff⟩,
    canonical_of_untied (untiedChildren_of_addresses distinct)⟩
  obtain ⟨built', hbuilt, rfl⟩ :=
    (buildFields_alike p (untied_of_addresses distinct)).exists_right h
  obtain ⟨lists, hlists, checked⟩ := bind_eq_ok.mp hbuilt
  refine ⟨built, hbuilt, _, renamed_nodes Field.view hlists fun f _ _ => buildField_becomes, ?_⟩
  obtain ⟨rfl, -⟩ := checkFields_ok checked
  rw [renamed_of_kind Field.view fun _ => rfl]
  exact (Name.sortOn_perm _ _ _).symm

/-! ### Documents -/

/-- **The children of one node of a description**, with what a builder is told of the nodes around
them: the path of the node, the properties that it passes on and the affixes. -/
inductive ItemLevel (d : Description.Device) : String → Properties → Affix → List Item → Prop
  | peripheral {p : Description.Peripheral} : p ∈ d.peripherals →
    ItemLevel d p.name (p.properties.orElse d.properties) (affixOf p) p.children
  | cluster {parent : String} {outer : Properties} {affix : Affix} {children inner : List Item}
    {info : ClusterInfo} : ItemLevel d parent outer affix children →
      .cluster info inner ∈ children →
      ItemLevel d (parent ++ "." ++ info.name) (info.properties.orElse outer) affix inner

section Document

variable {d : Description.Device} {device : Device} {parent : String} {outer : Properties}
variable {affix : Affix} {children : List Item}

/-- The children of a level that is built are built one by one. -/
theorem exists_of_level {entries : List Entry} {c : Item}
    (h : buildItems parent outer affix children = .ok entries) (hc : c ∈ children) :
    ∃ own, buildItem parent outer affix c = .ok own := by
  obtain ⟨lists, hlists, -⟩ := buildItems_ok h
  obtain ⟨own, -, built⟩ := exists_of_forall₂ hlists hc
  exact ⟨own, built⟩

/-- **Every level of a description that has a map is built.** -/
theorem ItemLevel.exists_built (level : ItemLevel d parent outer affix children)
    (h : ofDescription d = .ok device) :
    ∃ entries, buildItems parent outer affix children = .ok entries := by
  induction level with
  | peripheral hp =>
      obtain ⟨lists, -, hlists, -⟩ := ofDescription_ok h
      obtain ⟨own, -, built⟩ := exists_of_forall₂ hlists hp
      obtain ⟨entries, interrupts, hentries, -⟩ := buildPeripheral_ok built
      exact ⟨entries, hentries⟩
  | cluster _ mem ih =>
      obtain ⟨entries, built⟩ := ih
      obtain ⟨own, hown⟩ := exists_of_level built mem
      obtain ⟨inner, hinner, -⟩ := buildItem_cluster_ok hown
      exact ⟨inner, hinner⟩

theorem ItemLevel.ranged (level : ItemLevel d parent outer affix children) (ranged : d.Ranged) :
    ∀ c ∈ children, c.Ranged := by
  induction level with
  | peripheral hp => exact ranged _ hp
  | cluster _ mem ih => exact (ih _ mem).of_cluster.2

/-- **The names of a device** at every level: its peripherals, the registers and clusters of each
node, and the fields of each register. -/
structure NamedLevels (d : Description.Device) : Prop where
  /-- The names of the peripherals. -/
  peripherals : NamedLevel Peripheral.view (·.name) peripheralElements
    (buildPeripheral d.properties)
    (fun peripherals => (ofDescription { d with peripherals }).map (·.peripherals)) d.peripherals
  /-- The names of the registers and clusters of one node. -/
  items : ∀ {parent outer affix children}, ItemLevel d parent outer affix children →
    NamedLevel Entry.view Item.name (itemElements affix) (buildItem parent outer affix)
      (fun children => (buildItems parent outer affix children).map fun entries =>
        (arrange entries).entries) children
  /-- The names of the fields of one register, none of which depends on an order. -/
  fields : ∀ {parent outer affix children}, ItemLevel d parent outer affix children →
    ∀ r, .register r ∈ children →
      NamedLevel Field.view (·.name) fieldElements (fieldContext parent outer r).field
          (fieldContext parent outer r).fields r.fields ∧
        Canonical (·.name) fieldElements r.fields ∧
        ∃ built, buildRegister parent outer affix r = .ok built ∧
          ∀ x ∈ built, (fieldContext parent outer r).fields r.fields = .ok x.fields

theorem ofDescription_named (ranged : d.Ranged) (h : ofDescription d = .ok device) :
    NamedLevels d where
  peripherals := peripherals_named h
  items level := items_named (level.exists_built h).choose_spec
  fields {_ _ _ _} level r hr := by
    obtain ⟨entries, built⟩ := level.exists_built h
    obtain ⟨own, hown⟩ := exists_of_level built hr
    obtain ⟨registers, hregisters, -⟩ := buildItem_register_ok hown
    obtain ⟨small, fields, hfields, shared⟩ := exists_fields hregisters
    obtain ⟨named, canonical⟩ :=
      fields_named small (level.ranged ranged _ hr).of_register hfields
    exact ⟨named, canonical, registers, hregisters, fun x hx => (shared x hx).symm ▸ hfields⟩

/-- Registers and clusters in another order inside are the same elements. -/
theorem like_of_reordered {c c' : Item} (h : c.Reordered c') :
    c.name = c'.name ∧ itemElements affix c = itemElements affix c' := by
  refine ⟨h.name_eq, ?_⟩
  cases h with
  | register h =>
      obtain ⟨fields, -, rfl⟩ := h
      rfl
  | cluster _ _ => rfl

/-- **Each level of a description** is one of the description in another order, and is shuffled
there. -/
theorem ItemLevel.reordered {d' : Description.Device}
    (level : ItemLevel d parent outer affix children) (h : d.Reordered d') :
    ∃ children', ItemLevel d' parent outer affix children' ∧
      Shuffled Item.Reordered children children' := by
  obtain ⟨peripherals, shuffled, rfl⟩ := h
  induction level with
  | peripheral hp =>
      obtain ⟨p', hp', children', inside, rfl⟩ := shuffled.exists_right hp
      have level := ItemLevel.peripheral (d := { d with peripherals }) hp'
      exact ⟨children', level, inside⟩
  | cluster _ mem ih =>
      obtain ⟨children', level, inside⟩ := ih
      obtain ⟨c', hc', reordered⟩ := inside.exists_right mem
      cases reordered with
      | cluster pairs p => exact ⟨_, .cluster level hc', _, pairs, p⟩

/-- **Canonical levels give the same names in two orders of a description.** -/
structure KeepsNames (d d' : Description.Device) : Prop where
  /-- The names of the peripherals. -/
  peripherals : Canonical (·.name) peripheralElements d.peripherals →
    (finalElements (·.name) peripheralElements d'.peripherals).Perm
      (finalElements (·.name) peripheralElements d.peripherals)
  /-- The names of the registers and clusters of one node. -/
  items : ∀ {parent outer affix children}, ItemLevel d parent outer affix children →
    Canonical Item.name (itemElements affix) children →
      ∃ children', ItemLevel d' parent outer affix children' ∧
        (finalElements Item.name (itemElements affix) children').Perm
          (finalElements Item.name (itemElements affix) children)
  /-- The names of the fields of one register. -/
  fields : ∀ {parent outer affix children}, ItemLevel d parent outer affix children →
    ∀ r, .register r ∈ children → Canonical (·.name) fieldElements r.fields →
      ∃ children' r', ItemLevel d' parent outer affix children' ∧ .register r' ∈ children' ∧
        r'.name = r.name ∧
        (finalElements (·.name) fieldElements r'.fields).Perm
          (finalElements (·.name) fieldElements r.fields)

theorem keepsNames_of_reordered {d' : Description.Device} (h : d.Reordered d') :
    KeepsNames d d' where
  peripherals canonical := by
    obtain ⟨peripherals, shuffled, rfl⟩ := h
    refine canonical.shuffled shuffled ?_
    rintro p _ ⟨children, -, rfl⟩
    exact ⟨rfl, rfl⟩
  items level canonical := by
    obtain ⟨children', level', shuffled⟩ := level.reordered h
    exact ⟨children', level', canonical.shuffled shuffled fun _ _ => like_of_reordered⟩
  fields level r hr canonical := by
    obtain ⟨children', level', shuffled⟩ := level.reordered h
    obtain ⟨c', hc', reordered⟩ := shuffled.exists_right hr
    cases reordered with
    | register inside =>
        obtain ⟨fields, p, rfl⟩ := inside
        exact ⟨children', _, level', hc', rfl, canonical fields p⟩

/-- **The names of a document.**  At every level, the children get the same names in any order
exactly when no two of them become one element; fields always do.  So two orders of a document
without namesakes give the same names at every such level. -/
theorem ofText_named {text : String} {checked : Checked} (h : ofText text = .ok checked) :
    ∃ r, resolvedOfText text = .ok r ∧ ofDescription r = .ok checked.device ∧ NamedLevels r ∧
      ∀ text', Markup.Reordered text text' →
        (∀ d, Description.ofText text = .ok d → d.Distinct) →
          ∃ r', resolvedOfText text' = .ok r' ∧ KeepsNames r r' := by
  obtain ⟨r, device, resolved, built, rfl⟩ := exists_of_ofText h
  have named := ofDescription_named (ranged_of_resolvedOfText resolved) built
  refine ⟨r, resolved, built, named, fun text' orders distinct => ?_⟩
  obtain ⟨r', resolved', reordered⟩ := (resolvedOfText_alike orders distinct).exists_right resolved
  exact ⟨r', resolved', keepsNames_of_reordered reordered⟩

/-- A document in two orders has names at every level, which are the same in both. -/
theorem ofText_named_upward : ∃ checked r r', ofText upward = .ok checked ∧
    resolvedOfText upward = .ok r ∧ resolvedOfText downward = .ok r' ∧ NamedLevels r ∧
      KeepsNames r r' := by
  obtain ⟨checked, h⟩ := ofText_upward
  obtain ⟨r, resolved, -, named, keeps⟩ := ofText_named h
  obtain ⟨r', resolved', same⟩ := keeps downward upward_reordered distinct_upward
  exact ⟨checked, r, r', h, resolved, resolved', named, same⟩

end Document

/-! ### A document whose names depend on its order -/

/-- A document with two registers of one identifier at one offset. -/
def tied : String :=
  "<device><name>D</name><peripherals><peripheral><name>P</name><baseAddress>0</baseAddress>
  <registers><register><name>A-B</name><addressOffset>0</addressOffset></register>
  <register><name>A_B</name><addressOffset>0</addressOffset></register></registers></peripheral>
  </peripherals></device>"

/-- Two registers of one identifier at one offset. -/
def tiedRegisters : List Description.Register :=
  [Inheritance.plainRegister "A-B" 0 none [], Inheritance.plainRegister "A_B" 0 none []]

/-- The final names of the two registers, each behind the name that it has in the document. -/
def tiedNames (registers : List Description.Register) : List (String × String) :=
  (finalElements Item.name (itemElements ⟨"", ""⟩) (registers.map .register)).map fun o =>
    (o.child, o.element.name)

set_option maxRecDepth 4000 in
theorem resolvedOfText_tied :
    resolvedOfText tied = .ok (Inheritance.oneBlock tiedRegisters) := by
  have written : tied = String.ofList _ := rfl
  have read := Description.ofText_eq written
  rw [resolvedOfText, read]
  cbv

theorem ofText_tied : ∃ checked, ofText tied = .ok checked := by
  have built : (ofDescription (Inheritance.oneBlock tiedRegisters)).isOk = true := by cbv
  cases h : ofDescription (Inheritance.oneBlock tiedRegisters) with
  | error fault =>
      rw [h] at built
      cases built
  | ok device =>
      refine ⟨.ofDevice device, bind_eq_ok.mpr ⟨_, resolvedOfText_tied, ?_⟩⟩
      exact bind_eq_ok.mpr ⟨device, mapError_eq_ok.mpr h, rfl⟩

/-- **Of two registers of one identifier and offset**, the first one in the document keeps the name:
the registers of `tied` have distinct names in the document, and their final names are exchanged
when they are. -/
theorem not_canonical_tied :
    (∃ checked, ofText tied = .ok checked) ∧
      resolvedOfText tied = .ok (Inheritance.oneBlock tiedRegisters) ∧
      ItemLevel (Inheritance.oneBlock tiedRegisters) "P" .empty ⟨"", ""⟩
        (tiedRegisters.map .register) ∧
      (tiedRegisters.map (·.name)).Nodup ∧
      tiedNames tiedRegisters = [("A-B", "A_B"), ("A_B", "A_B_1")] ∧
      tiedNames tiedRegisters.reverse = [("A_B", "A_B"), ("A-B", "A_B_1")] ∧
      ¬Canonical Item.name (itemElements ⟨"", ""⟩) (tiedRegisters.map .register) := by
  have names : tiedNames tiedRegisters = [("A-B", "A_B"), ("A_B", "A_B_1")] := by cbv
  have turned : tiedNames tiedRegisters.reverse = [("A_B", "A_B"), ("A-B", "A_B_1")] := by cbv
  have level := ItemLevel.peripheral (d := Inheritance.oneBlock tiedRegisters)
    (List.mem_singleton_self _)
  refine ⟨ofText_tied, resolvedOfText_tied, level, by decide, names, turned, fun canonical => ?_⟩
  have same : (tiedNames tiedRegisters.reverse).Perm (tiedNames tiedRegisters) :=
    (canonical _ ((List.reverse_perm tiedRegisters).symm.map _)).map _
  rw [names, turned] at same
  exact absurd same (by decide)

end ChipMap.Map
