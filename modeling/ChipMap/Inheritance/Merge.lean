import ChipMap.Description.Basic

/-!
# Merging nodes

A node derives from another node, its referent, which it names.  It keeps every attribute of its own
and takes the absent ones from the referent, its base.  Children are matched by name: a child that
both have is merged, and a child that only the base has is appended.

The name of a referent may name nothing, a node of another kind, or a node that needs the first one
itself.  These are the faults of references, and there are no others.

* `ReferenceFault` — the faults, with `ReferenceFault.message`.
* `Field.orElse`, `Register.orElse`, `ClusterInfo.orElse`, `Peripheral.orElse` — attributes.
* `appendNewNames` — fields that only the base has, behind the own ones.
* `appendUndefined` — children that only the base has, behind the own ones.
* `mergeItem` — two resolved nodes of one name, the first of which wins.

### What is load-bearing

Merging a record is a choice for each attribute, and the result derives from nothing (`derivedFrom
:= none`).  Lists are chosen as a whole: enumerated sets and address blocks are taken from the base
only if the node has none of its own, and the interrupts of a peripheral are never taken.

Fields and children are appended by different rules.  A field of the base is compared with the
result as it grows (`appendNewNames`), and a child with the own children only (`appendUndefined`).
So of two fields of the base with one name the first is taken, and of two such children both.
-/

namespace ChipMap.Inheritance

open Description (ItemKind)

/-- Why a node cannot derive from what it names.  A name that leads nowhere is reported with the
names that were in reach, and a cycle with the paths of the nodes on it. -/
inductive ReferenceFault where
  /-- The reference names no node.  The options are the names that were in reach. -/
  | unresolved (kind : ItemKind) (node target : String) (options : List String)
  /-- The node is needed to resolve itself.  The chain begins and ends with the node. -/
  | cycle (kind : ItemKind) (chain : List String)
  /-- The node would derive from a node of another kind. -/
  | kindMismatch (kind : ItemKind) (node : String) (targetKind : ItemKind) (target : String)
deriving DecidableEq, Repr, Inhabited

/-- The wording of a fault. -/
def ReferenceFault.message : ReferenceFault → String
  | unresolved kind node target options =>
    kind.label ++ " '" ++ node ++ "' derived from unknown item '" ++ target ++
      "', valid options: " ++ String.intercalate ", " options
  | cycle kind chain =>
    kind.label ++ " '" ++ chain.headD "" ++ "' has a cyclic dependency on itself, cycle: " ++
      String.intercalate " -> " chain
  | kindMismatch kind node targetKind target =>
    kind.label ++ " '" ++ node ++ "' cannot derive from " ++ targetKind.label ++ " '" ++ target ++
      "'"

end ChipMap.Inheritance

namespace ChipMap.Description

/-- The attributes of a field, with the absent ones taken from a base.  A field without enumerated
values takes those of the base, all of them or none. -/
def Field.orElse (own base : Field) : Field where
  name := own.name
  derivedFrom := none
  description := own.description.or base.description
  bitRange := own.bitRange.or base.bitRange
  access := own.access.or base.access
  writeEffect := own.writeEffect.or base.writeEffect
  writeConstraint := own.writeConstraint.or base.writeConstraint
  readEffect := own.readEffect.or base.readEffect
  dimension := own.dimension.or base.dimension
  enumeratedSets := if own.enumeratedSets.isEmpty then base.enumeratedSets else own.enumeratedSets

/-- The attributes of a register, with the absent ones taken from a base.  The fields stay; they are
merged by name apart from this. -/
def Register.orElse (own base : Register) : Register where
  name := own.name
  derivedFrom := none
  displayName := own.displayName.or base.displayName
  description := own.description.or base.description
  alternateGroup := own.alternateGroup.or base.alternateGroup
  alternateRegister := own.alternateRegister.or base.alternateRegister
  addressOffset := own.addressOffset.or base.addressOffset
  properties := own.properties.orElse base.properties
  dimension := own.dimension.or base.dimension
  writeEffect := own.writeEffect.or base.writeEffect
  writeConstraint := own.writeConstraint.or base.writeConstraint
  readEffect := own.readEffect.or base.readEffect
  fields := own.fields

/-- The attributes of a cluster, with the absent ones taken from a base. -/
def ClusterInfo.orElse (own base : ClusterInfo) : ClusterInfo where
  name := own.name
  derivedFrom := none
  description := own.description.or base.description
  headerStructName := own.headerStructName.or base.headerStructName
  addressOffset := own.addressOffset.or base.addressOffset
  properties := own.properties.orElse base.properties
  dimension := own.dimension.or base.dimension

/-- The attributes of a peripheral, with the absent ones taken from a base.  The children stay, and
interrupts belong to one peripheral only. -/
def Peripheral.orElse (own base : Peripheral) : Peripheral where
  name := own.name
  derivedFrom := none
  version := own.version.or base.version
  description := own.description.or base.description
  groupName := own.groupName.or base.groupName
  prependToName := own.prependToName.or base.prependToName
  appendToName := own.appendToName.or base.appendToName
  baseAddress := own.baseAddress.or base.baseAddress
  properties := own.properties.orElse base.properties
  dimension := own.dimension.or base.dimension
  addressBlocks := if own.addressBlocks.isEmpty then base.addressBlocks else own.addressBlocks
  interrupts := own.interrupts
  children := own.children

end ChipMap.Description

namespace ChipMap.Inheritance

open Description

/-- The first field of a name.  A reference by name means this one. -/
def fieldNamed? (fields : List Field) (name : String) : Option Field :=
  fields.find? fun f => f.name == name

/-- The first child of a name.  Later children of that name are not found. -/
def itemNamed? (items : List Item) (name : String) : Option Item :=
  items.find? fun item => item.name == name

/-- The fields `own` with those of the base behind them whose names are new.  Of several fields of
the base with one name only the first is new. -/
def appendNewNames (own : List Field) : List Field → List Field
  | [] => own
  | f :: rest =>
    if own.any fun o => o.name == f.name then appendNewNames own rest
    else appendNewNames (own ++ [f]) rest

/-- The children `resolved` with those of the base behind them whose names the children `own` do not
define. -/
def appendUndefined (own base resolved : List Item) : List Item :=
  resolved ++ base.filter fun b => !own.any fun o => o.name == b.name

/-- The fields of two resolved registers, the first of which wins.  Each own field takes from the
first field of its name. -/
def mergeFields (own base : List Field) : List Field :=
  appendNewNames
    (own.map fun f =>
      match fieldNamed? base f.name with
      | some inherited => f.orElse inherited
      | none => f)
    base

/-- The path of the child of a name. -/
def childPath (path name : String) : String := path ++ "." ++ name

/-- The fault of a node at `path` that would derive from a node of another kind. -/
def mismatch {α : Type} (kind : ItemKind) (path : String) (base : Item) (target : String) :
    Except ReferenceFault α :=
  .error (.kindMismatch kind path base.kind target)

mutual

/-- Two resolved nodes merged, the first of which wins.  The path is that of the node they are
merged for; merged nodes have to be of one kind. -/
def mergeItem (path : String) (base : Item) : Item → Except ReferenceFault Item
  | .register own =>
    match base with
    | .register b => .ok (.register { own.orElse b with fields := mergeFields own.fields b.fields })
    | .cluster _ _ => mismatch .register path base base.name
  | .cluster own children =>
    match base with
    | .register _ => mismatch .cluster path base base.name
    | .cluster b inherited => do
      let merged ← mergeItems path inherited children
      return .cluster (own.orElse b) (appendUndefined children inherited merged)

/-- Each of a list of children merged with the first child of its name in the base, if there is
one. -/
def mergeItems (path : String) (inherited : List Item) :
    List Item → Except ReferenceFault (List Item)
  | [] => return []
  | child :: rest => do
    let first ←
      match itemNamed? inherited child.name with
      | some base => mergeItem (childPath path child.name) base child
      | none => .ok child
    return first :: (← mergeItems path inherited rest)

end

end ChipMap.Inheritance
