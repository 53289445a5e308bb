import ChipMap.Inheritance.Resolver
import Mathlib.Data.List.Forall2

/-!
# The rule of inheritance

What a resolved description says of a node, in terms of the description it comes from and of the
resolved description itself.  The rule has no memory, no order in which nodes are resolved and no
depth: it is a relation between a description and a result, and it mentions references only through
the nodes that they name in the result.

* **Attributes** (`FieldFrom` … `PeripheralFrom`): the node's own value, or else the value of the
  first source that has one.  The sources are the referent of the node and the child of its name of
  its parent's base, in this order.
* **Children** (`ItemsFollow`, `FieldsFollow`): the node's own ones in order, each by the same rule,
  and behind them those that only the base has.
* **References** (`referent?`): the node that a path of names leads to in the result.
* **Bases** (`MergedBase`): a node with a referent and a counterpart takes its children from the two
  merged.

### What is load-bearing

The rule is parametrised by `Takes`, which says what a register takes over of the fields of its
base.  `TakesAll` is the rule for children of every other kind; `TakesFirsts` is what registers do.
They differ where a base has several fields of one name, and only there.

The result stands on both sides of the rule: it is described by what its own nodes are.  For a
description with a circle of references this would say little, but such a description has no result.
-/

namespace ChipMap.Inheritance

open Description

/-! ### Attributes -/

/-- Each property is that of the first source that has it. -/
structure PropertiesFrom (sources : List Properties) (p : Properties) : Prop where
  size : p.size = sources.findSome? (·.size)
  access : p.access = sources.findSome? (·.access)
  protection : p.protection = sources.findSome? (·.protection)
  resetValue : p.resetValue = sources.findSome? (·.resetValue)
  resetMask : p.resetMask = sources.findSome? (·.resetMask)

/-- The first list that is not empty.  Address blocks and enumerated values are present when there
are any, so an empty list counts as an absent one. -/
def firstNonEmpty {α : Type} (lists : List (List α)) : List α :=
  (lists.find? fun l => !l.isEmpty).getD []

/-- **A field with its absent attributes taken from `sources`**, the first of which
wins. -/
structure FieldFrom (own : Field) (sources : List Field) (f : Field) : Prop where
  name : f.name = own.name
  derivedFrom : f.derivedFrom = none
  description : f.description = (own :: sources).findSome? (·.description)
  bitRange : f.bitRange = (own :: sources).findSome? (·.bitRange)
  access : f.access = (own :: sources).findSome? (·.access)
  writeEffect : f.writeEffect = (own :: sources).findSome? (·.writeEffect)
  writeConstraint : f.writeConstraint = (own :: sources).findSome? (·.writeConstraint)
  readEffect : f.readEffect = (own :: sources).findSome? (·.readEffect)
  dimension : f.dimension = (own :: sources).findSome? (·.dimension)
  enumeratedSets : f.enumeratedSets = firstNonEmpty ((own :: sources).map (·.enumeratedSets))

/-- **A register with its absent attributes taken from `sources`.**  Its fields are the
matter of `FieldsFollow`. -/
structure RegisterFrom (own : Register) (sources : List Register) (r : Register) : Prop where
  name : r.name = own.name
  derivedFrom : r.derivedFrom = none
  displayName : r.displayName = (own :: sources).findSome? (·.displayName)
  description : r.description = (own :: sources).findSome? (·.description)
  alternateGroup : r.alternateGroup = (own :: sources).findSome? (·.alternateGroup)
  alternateRegister : r.alternateRegister = (own :: sources).findSome? (·.alternateRegister)
  addressOffset : r.addressOffset = (own :: sources).findSome? (·.addressOffset)
  properties : PropertiesFrom ((own :: sources).map (·.properties)) r.properties
  dimension : r.dimension = (own :: sources).findSome? (·.dimension)
  writeEffect : r.writeEffect = (own :: sources).findSome? (·.writeEffect)
  writeConstraint : r.writeConstraint = (own :: sources).findSome? (·.writeConstraint)
  readEffect : r.readEffect = (own :: sources).findSome? (·.readEffect)

/-- **A cluster with its absent attributes taken from `sources`.** -/
structure ClusterFrom (own : ClusterInfo) (sources : List ClusterInfo) (c : ClusterInfo) :
    Prop where
  name : c.name = own.name
  derivedFrom : c.derivedFrom = none
  description : c.description = (own :: sources).findSome? (·.description)
  headerStructName : c.headerStructName = (own :: sources).findSome? (·.headerStructName)
  addressOffset : c.addressOffset = (own :: sources).findSome? (·.addressOffset)
  properties : PropertiesFrom ((own :: sources).map (·.properties)) c.properties
  dimension : c.dimension = (own :: sources).findSome? (·.dimension)

/-- **A peripheral with its absent attributes taken from `sources`.**  Interrupts are
always its own. -/
structure PeripheralFrom (own : Peripheral) (sources : List Peripheral) (p : Peripheral) :
    Prop where
  name : p.name = own.name
  derivedFrom : p.derivedFrom = none
  version : p.version = (own :: sources).findSome? (·.version)
  description : p.description = (own :: sources).findSome? (·.description)
  groupName : p.groupName = (own :: sources).findSome? (·.groupName)
  prependToName : p.prependToName = (own :: sources).findSome? (·.prependToName)
  appendToName : p.appendToName = (own :: sources).findSome? (·.appendToName)
  baseAddress : p.baseAddress = (own :: sources).findSome? (·.baseAddress)
  properties : PropertiesFrom ((own :: sources).map (·.properties)) p.properties
  dimension : p.dimension = (own :: sources).findSome? (·.dimension)
  addressBlocks : p.addressBlocks = firstNonEmpty ((own :: sources).map (·.addressBlocks))
  interrupts : p.interrupts = own.interrupts

/-! ### Children that only the base has -/

/-- The children of a base that a node does not define. -/
def undefinedItems (own base : List Item) : List Item :=
  base.filter fun b => !own.any fun o => o.name == b.name

/-- The fields of a base that a register does not define. -/
def undefinedFields (own base : List Field) : List Field :=
  base.filter fun b => !own.any fun o => o.name == b.name

/-- The first field of each name.  This is what appending to a growing list leaves of namesakes. -/
def firstOfEachName : List Field → List Field
  | [] => []
  | f :: rest => f :: (firstOfEachName rest).filter fun g => g.name != f.name

/-- A register takes over **all** fields of its base that it does not define. -/
def TakesAll (own base appended : List Field) : Prop :=
  appended = undefinedFields own base

/-- A register takes over **the first field of each name** that it does not define,
which is all of them exactly when their names are distinct. -/
structure TakesFirsts (own base appended : List Field) : Prop where
  firsts : appended = firstOfEachName (undefinedFields own base)
  all_iff : TakesAll own base appended ↔ ((undefinedFields own base).map (·.name)).Nodup

/-! ### Merged bases -/

/-- A field merged with the first of its name among `seconds`, or kept when there is
none. -/
inductive MergedField (seconds : List Field) (f : Field) : Field → Prop
  | kept : fieldNamed? seconds f.name = none → MergedField seconds f f
  | merged {g m : Field} : fieldNamed? seconds f.name = some g → FieldFrom f [g] m →
      MergedField seconds f m

section Rule

variable (Takes : List Field → List Field → List Field → Prop)

mutual

/-- **Two nodes of one kind merged**, the first of which wins. -/
inductive MergedItem : Item → Item → Item → Prop
  | register {first second merged : Register} {kept appended : List Field} :
    RegisterFrom first [second] merged →
      List.Forall₂ (MergedField second.fields) first.fields kept →
      Takes first.fields second.fields appended → merged.fields = kept ++ appended →
      MergedItem (.register first) (.register second) (.register merged)
  | cluster {first second merged : ClusterInfo} {firsts seconds kept : List Item} :
    ClusterFrom first [second] merged → MergedItems seconds firsts kept →
      MergedItem (.cluster first firsts) (.cluster second seconds)
        (.cluster merged (kept ++ undefinedItems firsts seconds))

/-- Each of a list of children merged with the first of its name among
`seconds`, or kept when there is none. -/
inductive MergedItems : List Item → List Item → List Item → Prop
  | nil {seconds : List Item} : MergedItems seconds [] []
  | kept {seconds rest merged : List Item} {x : Item} :
    itemNamed? seconds x.name = none → MergedItems seconds rest merged →
      MergedItems seconds (x :: rest) (x :: merged)
  | merged {seconds rest merged : List Item} {x y m : Item} :
    itemNamed? seconds x.name = some y → MergedItem x y m →
      MergedItems seconds rest merged → MergedItems seconds (x :: rest) (m :: merged)

end

/-- **The base of a node**, from its referent and from its counterpart: the one it
has, or the two merged. -/
inductive MergedBase : Option Item → Option Item → Option Item → Prop
  | neither : MergedBase none none none
  | ofReferent {x : Item} : MergedBase (some x) none (some x)
  | ofCounterpart {c : Item} : MergedBase none (some c) (some c)
  | ofBoth {x c base : Item} :
    MergedItem Takes x c base → MergedBase (some x) (some c) (some base)

end Rule

/-! ### References -/

/-- The node that a path of names leads to from some siblings. -/
def namedBy (siblings : List Item) : List String → Option Item
  | [] => none
  | first :: rest => (itemNamed? siblings first).bind fun item => descend item rest

/-- The node that a path of names leads to from the innermost of some scopes that
has it.  The outermost scope may be named by its peripheral, `root`. -/
def nearest? (root : String) (names : List String) : List (List Item) → Option Item
  | [] => none
  | [scope] =>
    (namedBy scope names).or (if names.head? = some root then namedBy scope names.tail else none)
  | scope :: outer => (namedBy scope names).or (nearest? root names outer)

/-- The first peripheral of a name. -/
def peripheralNamed? (r : Device) (name : String) : Option Peripheral :=
  r.peripherals.find? fun p => p.name == name

/-- The node that a path of names leads to when the first name is that of a
peripheral other than `root`. -/
def elsewhere? (r : Device) (root : String) : List String → Option Item
  | [] => none
  | first :: rest =>
    if first = root then none
    else (peripheralNamed? r first).bind fun p => namedBy p.children rest

/-- **The node of the result that a reference names**, for a node among the
innermost of `scopes` in the peripheral `root`. -/
def referent? (r : Device) (root : String) (scopes : List (List Item)) (target : String) :
    Option Item :=
  (nearest? root (pathNames target) scopes).or (elsewhere? r root (pathNames target))

section Rule

variable (Takes : List Field → List Field → List Field → Prop) (r : Device)

/-! ### Nodes -/

/-- **A field follows the rule**: its referent is the field of the resolved register
that it names, and behind it stands the inherited field of its own name. -/
structure FieldFollows (inherited all : List Field) (own f : Field) : Prop where
  found : own.derivedFrom.isSome → (own.derivedFrom.bind (fieldNamed? all)).isSome
  attributes : FieldFrom own ((own.derivedFrom.bind (fieldNamed? all)).toList ++
    (fieldNamed? inherited own.name).toList) f

/-- The fields of a resolved register: its own ones in order, and those taken over from
the fields `inherited`. -/
structure FieldsFollow (own inherited all : List Field) : Prop where
  split : ∃ kept appended, List.Forall₂ (FieldFollows inherited all) own kept ∧
    Takes own inherited appended ∧ all = kept ++ appended

/-- **What a node takes absent attributes from**: the node that its reference names, the child of
its name that its parent inherits, and the two merged.  Both have the kind of the node. -/
structure SourcesOf (root : String) (scopes : List (List Item)) (inherited : List Item)
    (own : Item) (referent counterpart base : Option Item) : Prop where
  named : referent = own.derivedFrom.bind (referent? r root scopes)
  found : own.derivedFrom.isSome → referent.isSome
  inherits : counterpart = itemNamed? inherited own.name
  kind : ∀ source ∈ referent.toList ++ counterpart.toList, source.kind = own.kind
  merged : MergedBase Takes referent counterpart base

mutual

/-- **A register or cluster follows the rule**, among the innermost of `scopes`, when
its parent inherits the children `inherited`. -/
inductive ItemFollows (root : String) :
    List (List Item) → List Item → Item → Item → Prop
  | register {scopes : List (List Item)} {inherited : List Item} {own resolved : Register}
    {referent counterpart base : Option Item} :
    SourcesOf Takes r root scopes inherited (.register own) referent counterpart base →
      RegisterFrom own ((referent.toList ++ counterpart.toList).filterMap asRegister?)
        resolved →
      FieldsFollow Takes own.fields (((base.bind asRegister?).map (·.fields)).getD [])
        resolved.fields →
      ItemFollows root scopes inherited (.register own) (.register resolved)
  | cluster {scopes : List (List Item)} {inherited children kept : List Item}
    {own resolved : ClusterInfo} {referent counterpart base : Option Item} :
    SourcesOf Takes r root scopes inherited (.cluster own children) referent counterpart
        base →
      ClusterFrom own ((referent.toList ++ counterpart.toList).filterMap asClusterInfo?)
        resolved →
      ItemsFollow root ((kept ++ undefinedItems children (inheritedChildren base)) :: scopes)
        (inheritedChildren base) children kept →
      ItemFollows root scopes inherited (.cluster own children)
        (.cluster resolved (kept ++ undefinedItems children (inheritedChildren base)))

/-- The own children of a node follow the rule, in order. -/
inductive ItemsFollow (root : String) :
    List (List Item) → List Item → List Item → List Item → Prop
  | nil {scopes : List (List Item)} {inherited : List Item} :
    ItemsFollow root scopes inherited [] []
  | cons {scopes : List (List Item)} {inherited owns resolved : List Item} {own x : Item} :
    ItemFollows root scopes inherited own x →
      ItemsFollow root scopes inherited owns resolved →
      ItemsFollow root scopes inherited (own :: owns) (x :: resolved)

end

/-- **A peripheral follows the rule.**  Its referent is the peripheral of the result
that it names, and is its base. -/
structure PeripheralFollows (own p : Peripheral) : Prop where
  found : own.derivedFrom.isSome → (own.derivedFrom.bind (peripheralNamed? r)).isSome
  attributes : PeripheralFrom own (own.derivedFrom.bind (peripheralNamed? r)).toList p
  children : ∃ kept,
    ItemsFollow Takes r own.name [p.children]
      (((own.derivedFrom.bind (peripheralNamed? r)).map (·.children)).getD [])
      own.children kept ∧
    p.children = kept ++ undefinedItems own.children
      (((own.derivedFrom.bind (peripheralNamed? r)).map (·.children)).getD [])

end Rule

/-- **The result `r` of resolving the description `d` follows the rule everywhere.**  Nothing but
the peripherals is changed.  Peripherals keep their number and their order. -/
structure Inherits (Takes : List Field → List Field → List Field → Prop) (d r : Device) :
    Prop where
  device : r = { d with peripherals := r.peripherals }
  peripherals : List.Forall₂ (PeripheralFollows Takes r) d.peripherals r.peripherals

end ChipMap.Inheritance
