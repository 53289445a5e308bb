import ChipMap.Inheritance.Fields

/-!
# Resolving references

A node names its referent by a path of names.  The name is looked up among the siblings of the node,
then among the siblings of the nodes around it, and last in the peripheral that the path begins
with.  A referent is resolved before it is used, each node is resolved once, and a node that is
needed while it is under way is a cycle.

* `Place` — where a node stands in the description.
* `Level` — the siblings at one place, with what their parent inherits.
* `Resolver` — the nodes that are resolved, and those that are under way.
* `Cell` — where one node is remembered.
* `Resolving` — computations that resolve nodes, with `Resolving.during` and `Resolving.once`.
* `Solvers` — how the peripherals and nodes that are needed on the way are resolved.
* `solvers` — the resolution itself, by the number of nodes that may still get under way.
* `resolvePeripheral` — one peripheral, by a resolver that may have resolved others.
* `resolve` — a description in which no node derives from another.

### Design decisions

**Steps apart from the recursion.**  What is done to resolve one node is written for any monad that
can fail, over solvers for the nodes that it needs.  The recursion is in `solvers` alone, by fuel.
So the same steps resolve with a memory and without one, and a law about the resolver is proved for
each step once.

**One memory, two kinds of nodes.**  Peripherals are remembered by number and all other nodes by
place.  A `Cell` is either of these, and `Resolving.once` is the only computation that looks into
the memory or writes to it.

### What is load-bearing

The state is kept when a computation fails, since a failed lookup does not undo what was resolved on
the way.  A node gets under way at most once at a time, so a fuel above the number of nodes
(`nodeCount`) never ends: without fuel there would have been a cycle before.
-/

namespace ChipMap.Inheritance

open Description

/-- Where a node stands: the number of its peripheral, and the numbers of the children that lead
from there to the node.  A peripheral stands at no further numbers. -/
structure Place where
  /-- The number of the peripheral in the device. -/
  peripheral : Nat
  /-- The numbers of the children, from the outside in. -/
  steps : List Nat
deriving DecidableEq, Repr, Inhabited

/-- The place of the child with the number `i`. -/
def Place.child (p : Place) (i : Nat) : Place := ⟨p.peripheral, p.steps ++ [i]⟩

/-- The siblings at one place: the children of a peripheral or of a cluster.  Their own children are
at levels of their own. -/
structure Level where
  /-- The place of the parent. -/
  place : Place
  /-- The names that lead to the parent, with dots between them. -/
  path : String
  /-- The children as they are described. -/
  own : List Item
  /-- The resolved children of the node that the parent derives from. -/
  inherited : List Item
deriving Repr, Inhabited

/-- The children of a peripheral, when the peripheral derives from `base`. -/
def Level.ofPeripheral (i : Nat) (p : Peripheral) (base : Option Peripheral) : Level where
  place := ⟨i, []⟩
  path := p.name
  own := p.children
  inherited := (base.map (·.children)).getD []

/-- A node that is under way, with its path. -/
structure Underway where
  /-- Where the node stands. -/
  place : Place
  /-- The names that lead to the node, with dots between them. -/
  path : String
deriving DecidableEq, Repr, Inhabited

/-- What is known while a device is resolved. -/
structure Resolver where
  /-- The resolved peripherals by number. -/
  peripherals : List (Nat × Peripheral)
  /-- The resolved registers and clusters by place. -/
  items : List (Place × Item)
  /-- The nodes under way, the latest first. -/
  underway : List Underway
deriving Repr, Inhabited

/-- Nothing is resolved and nothing is under way. -/
def Resolver.fresh : Resolver := ⟨[], [], []⟩

/-- The paths of the nodes under way since `place`, the earliest first. -/
def Resolver.chainSince (s : Resolver) (place : Place) : List String :=
  let later := s.underway.takeWhile fun u => u.place != place
  let first := (s.underway.find? fun u => u.place == place).toList
  (first ++ later.reverse).map (·.path)

/-- Where one node is remembered among what is known: how it is looked up there and how it is put
there.  Peripherals are remembered by number and all other nodes by place, and both are resolved
once in the same way. -/
structure Cell (α : Type) where
  /-- The resolved node, if it is known. -/
  known? : Resolver → Option α
  /-- What is known when the node is resolved. -/
  keep : α → Resolver → Resolver
  /-- Remembering a node leaves those under way as they are. -/
  underway : ∀ a s, (keep a s).underway = s.underway

/-- The cell of a peripheral. -/
def Cell.peripheral (i : Nat) : Cell Peripheral where
  known? s := s.peripherals.lookup i
  keep q s := { s with peripherals := (i, q) :: s.peripherals }
  underway _ _ := rfl

/-- The cell of a register or a cluster. -/
def Cell.item (place : Place) : Cell Item where
  known? s := s.items.lookup place
  keep x s := { s with items := (place, x) :: s.items }
  underway _ _ := rfl

/-- A computation that resolves nodes.  What it has resolved is kept when it fails. -/
abbrev Resolving := ExceptT ReferenceFault (StateM Resolver)

namespace Resolving

/-- Runs a computation with what is known so far. -/
def runWith {α : Type} (c : Resolving α) (s : Resolver) : Except ReferenceFault α × Resolver :=
  (ExceptT.run c).run s

/-- The computation that a function of what is known is. -/
def ofFunction {α : Type} (f : Resolver → Except ReferenceFault α × Resolver) : Resolving α :=
  ExceptT.mk f

/-- Runs `body` with the node at `place` under way.  A node that is under way already is a cycle. -/
def during {α : Type} (kind : ItemKind) (place : Place) (path : String) (body : Resolving α) :
    Resolving α :=
  ofFunction fun s =>
    if s.underway.any fun u => u.place == place then
      -- What is known stays as it is: the node was put under way by an earlier call.
      (.error (.cycle kind (s.chainSince place ++ [path])), s)
    else
      let outcome := body.runWith { s with underway := ⟨place, path⟩ :: s.underway }
      (outcome.1, { outcome.2 with underway := outcome.2.underway.tail })

/-- A node that is remembered is handed out, and any other one is resolved by `body` and remembered
when that returns.  A fault of `body` is not remembered, but what was resolved before it stays. -/
def once {α : Type} (cell : Cell α) (body : Resolving α) : Resolving α := do
  match cell.known? (← get) with
  | some done => return done
  | none =>
    let resolved ← body
    modify (cell.keep resolved)
    return resolved

end Resolving

/-- How the nodes that are needed on the way are resolved: a peripheral by its number, and a child
by its level, the levels around it, and its number.  The steps below run in any monad `m` that can
fail, so the same steps resolve with what is known so far and without it. -/
structure Solvers (m : Type → Type) where
  /-- Resolves the peripheral of a number. -/
  peripheral : Nat → m Peripheral
  /-- Resolves a child of the first of the levels. -/
  child : List Level → Nat → m Item

section Steps

variable {m : Type → Type} [Monad m] [MonadExceptOf ReferenceFault m]
variable (d : Device) (solve : Solvers m)

/-- The number of the first peripheral of a name. -/
def peripheralIndex? (name : String) : Option Nat :=
  d.peripherals.findIdx? fun p => p.name == name

/-- The resolved peripheral that the peripheral `p` derives from.  A peripheral is named alone: its
reference is no path. -/
def basePeripheral (p : Peripheral) : m (Option Peripheral) :=
  match p.derivedFrom with
  | none => return none
  | some target =>
    match peripheralIndex? d target with
    | some j => some <$> solve.peripheral j
    | none =>
      throw (.unresolved .peripheral p.name target (d.peripherals.map (·.name)))

/-- All children of the innermost level, resolved in order, with those behind them that only the
parent's base has. -/
def resolveLevel (level : Level) (outer : List Level) : m (List Item) := do
  let resolved ← (List.range level.own.length).mapM fun i => solve.child (level :: outer) i
  return appendUndefined level.own level.inherited resolved

/-- The child of a name at a level: one that is described there, or else one that is inherited.  The
former is resolved, and the latter is resolved already. -/
def findInLevel (level : Level) (outer : List Level) (name : String) : m (Option Item) :=
  match level.own.findIdx? fun item => item.name == name with
  | some i => some <$> solve.child (level :: outer) i
  | none => return itemNamed? level.inherited name

/-- The node that names lead to from a node.  The node is resolved as a whole, so nothing on the way
has to be. -/
def descend (item : Item) : List String → Option Item
  | [] => some item
  | name :: rest =>
    match itemNamed? item.children name with
    | some child => descend child rest
    | none => none

/-- The node that a path of names leads to from a level.  The first name is looked up at the level,
and the others inside what is found there. -/
def followFrom (level : Level) (outer : List Level) : List String → m (Option Item)
  | [] => return none
  | first :: rest => do
    match ← findInLevel solve level outer first with
    | some found => return descend found rest
    | none => return none

/-- The node that a path of names leads to from the innermost of some levels that has it.  The
outermost level may be named by its peripheral. -/
def lookupLevels (names : List String) : List Level → m (Option Item)
  | [] => return none
  | level :: outer => do
    match ← followFrom solve level outer names with
    | some found => return some found
    | none =>
      match outer, names with
      -- Only the path of the outermost level is the name of a peripheral.
      | [], first :: rest =>
        if level.path = first then followFrom solve level outer rest else return none
      | _, _ => lookupLevels names outer

/-- The name of the peripheral around some levels. -/
def rootPath (levels : List Level) : String :=
  (levels.getLast?.map (·.path)).getD ""

/-- The node that a path of names leads to when the first name is that of another peripheral.  Of
that peripheral only the named child is resolved, so two peripherals may name registers of each
other. -/
def lookupElsewhere (levels : List Level) : List String → m (Option Item)
  | first :: second :: rest =>
    if first = rootPath levels then return none
    else
      match peripheralIndex? d first with
      | none => return none
      | some j =>
        match d.peripherals[j]? with
        | none => return none
        | some p => do
          -- The peripheral itself is not resolved here, only what it derives from.
          let base ← basePeripheral d solve p
          followFrom solve (Level.ofPeripheral j p base) [] (second :: rest)
  | _ => return none

/-- The names in reach of a reference, from the inside out, each once.  They are the options of a
fault. -/
def namesInReach (levels : List Level) : List String :=
  (levels.flatMap fun level => (level.own ++ level.inherited).map (·.name)).foldl
    (fun names name => if names.contains name then names else names ++ [name]) []

/-- The names of a path, which has dots between them. -/
def pathNames (target : String) : List String :=
  (target.toList.splitOn '.').map String.ofList

/-- The node that `item` derives from. -/
def lookupReferent (levels : List Level) (item : Item) (target : String) : m Item := do
  let names := pathNames target
  match ← lookupLevels solve names levels with
  | some found => return found
  | none =>
    match ← lookupElsewhere d solve levels names with
    | some found => return found
    | none => throw (.unresolved item.kind item.name target (namesInReach levels))

/-- The referent of a node, which has to be of the node's own kind. -/
def referentOf (levels : List Level) (item : Item) (path : String) : m (Option Item) := do
  match item.derivedFrom with
  | none => return none
  | some target =>
    let found ← lookupReferent d solve levels item target
    if found.kind = item.kind then return some found
    else throw (.kindMismatch item.kind path found.kind target)

/-- What a node takes its absent attributes from: its referent, and behind it the child of its name
of the node that its parent derives from. -/
def baseOf (item : Item) (path : String) (referent counterpart : Option Item) :
    Except ReferenceFault (Option Item) :=
  match referent, counterpart with
  | some r, some c => some <$> mergeItem path c r
  | some r, none => .ok (some r)
  | none, some c => if c.kind = item.kind then .ok (some c) else mismatch item.kind path c c.name
  | none, none => .ok none

/-- A failure of a step is a failure of the resolution. -/
def ofExcept {α : Type} : Except ReferenceFault α → m α
  | .ok a => return a
  | .error fault => throw fault

/-- What a child of the innermost level takes its absent attributes from. -/
def itemBase (level : Level) (outer : List Level) (path : String) (item : Item) :
    m (Option Item) := do
  let referent ← referentOf d solve (level :: outer) item path
  ofExcept (baseOf item path referent (itemNamed? level.inherited item.name))

/-- A register with the absent attributes taken from its base.  Its fields are resolved against
those of the base, and those that only the base has stand behind them. -/
def resolveRegister (own : Register) (base : Option Register) (path : String) :
    Except ReferenceFault Register := do
  let inherited := (base.map (·.fields)).getD []
  let fields ← resolveFields ⟨path, own.fields, inherited⟩
  match base with
  | none => return { own with derivedFrom := none, fields }
  | some b => return { own.orElse b with fields := appendNewNames fields b.fields }

/-- The register that a node is, if it is one. -/
def asRegister? : Item → Option Register
  | .register r => some r
  | .cluster _ _ => none

/-- What is said of the cluster that a node is, if it is one. -/
def asClusterInfo? : Item → Option ClusterInfo
  | .register _ => none
  | .cluster info _ => some info

/-- The children of the node that a node takes its absent attributes from. -/
def inheritedChildren (base : Option Item) : List Item := (base.map (·.children)).getD []

/-- A child of the innermost level with the absent attributes taken from its base, and with its own
children resolved.  A cluster is resolved with its base at hand, so that its children may inherit
from those of the base. -/
def resolveItem (level : Level) (outer : List Level) (place : Place) (path : String)
    (item : Item) : m Item := do
  let base ← itemBase d solve level outer path item
  match item with
  | .register own =>
    return .register (← ofExcept (resolveRegister own (base.bind asRegister?) path))
  | .cluster own children =>
    let resolved ←
      resolveLevel solve ⟨place, path, children, inheritedChildren base⟩ (level :: outer)
    match base.bind asClusterInfo? with
    | none => return .cluster { own with derivedFrom := none } resolved
    | some b => return .cluster (own.orElse b) resolved

/-- A peripheral with the absent attributes taken from its base, and with its children resolved. -/
def resolvePeripheralBody (i : Nat) (p : Peripheral) : m Peripheral := do
  let base ← basePeripheral d solve p
  let children ← resolveLevel solve (Level.ofPeripheral i p base) []
  match base with
  | none => return { p with children }
  | some b => return { p.orElse b with children }

end Steps

/-- The resolution of peripherals and nodes, when `fuel` nodes may still get under way.  Each node
gets under way at most once at a time, so a fuel above the number of nodes never ends. -/
def solvers (d : Device) : Nat → Solvers Resolving
  -- With fuel above the number of nodes this is not reached.
  | 0 =>
    { peripheral := fun _ => throw (.cycle .peripheral [])
      child := fun _ _ => throw (.cycle .register []) }
  | fuel + 1 =>
    let solve := solvers d fuel
    { peripheral := fun i =>
        match d.peripherals[i]? with
        | none => throw (.cycle .peripheral [])
        | some p =>
          .once (.peripheral i)
            (.during .peripheral ⟨i, []⟩ p.name (resolvePeripheralBody d solve i p))
      child := fun levels i =>
        match levels with
        | [] => throw (.cycle .register [])
        | level :: outer =>
          match level.own[i]? with
          | none => throw (.cycle .register [])
          | some item =>
            let place := level.place.child i
            let path := childPath level.path item.name
            .once (.item place)
              (.during item.kind place path (resolveItem d solve level outer place path item)) }

mutual

/-- The number of nodes that a child is: itself and the nodes inside it. -/
def itemCount : Item → Nat
  | .register _ => 1
  | .cluster _ children => itemsCount children + 1

/-- The number of nodes among some children. -/
def itemsCount : List Item → Nat
  | [] => 0
  | item :: rest => itemCount item + itemsCount rest

end

/-- The number of peripherals, registers and clusters of a device. -/
def nodeCount (d : Device) : Nat :=
  d.peripherals.foldr (fun p n => itemsCount p.children + 1 + n) 0

/-- The peripheral of a number, resolved by a resolver that may have resolved others. -/
def resolvePeripheral (d : Device) (i : Nat) : Resolving Peripheral :=
  (solvers d (nodeCount d + 1)).peripheral i

/-- A description in which no node derives from another.  Peripherals are resolved in order, and the
first fault ends the resolution. -/
def resolve (d : Device) : Except ReferenceFault Device := do
  let resolveAll := (List.range d.peripherals.length).mapM fun i => resolvePeripheral d i
  let peripherals ← (resolveAll.runWith .fresh).1
  return { d with peripherals }

end ChipMap.Inheritance
