import ChipMap.Proofs.Inheritance.Rule

/-!
# Attributes of merged nodes

The merges `orElse` take each absent attribute from one base.  Here they are brought in the shape of
the rule of inheritance, where an attribute is that of the first of several sources that has it.
Each kind of node has three laws:

* `alone` — a node without a base;
* `behind` — one more source behind the ones a node has taken from;
* `before` — a node before the sources of its base.

### What is load-bearing

A node is merged with its base, and the base may have been merged before.  Read from the node, the
sources grow behind; read from the base, the node comes in front of sources that are there.  Both
orders of merging give the same attributes, since the first source that has a value wins in either.

Attributes are compared one by one, and each comparison is one of the four lemmas of the first
section.  An attribute that is added to a node adds one line to each law of its kind.
-/

namespace ChipMap.Inheritance

open Description

section Sources

variable {σ α : Type}

theorem findSome?_before (f : σ → Option α) (s : σ) (sources : List σ) :
    (s :: sources).findSome? f = (f s).or (sources.findSome? f) := by
  rw [List.findSome?_cons]
  cases f s with
  | none => rfl
  | some a => rfl

/-- The value of the first source that has one, with one more source behind: it counts only if none
of the others has a value. -/
theorem findSome?_behind (f : σ → Option α) (s : σ) (sources : List σ) :
    (sources ++ [s]).findSome? f = (sources.findSome? f).or (f s) := by
  rw [List.findSome?_append, findSome?_before]
  simp

theorem firstNonEmpty_before (l : List α) (lists : List (List α)) :
    firstNonEmpty (l :: lists) = if l.isEmpty then firstNonEmpty lists else l := by
  unfold firstNonEmpty
  cases l with
  | nil => rfl
  | cons a l => rfl

theorem firstNonEmpty_behind (l : List α) (lists : List (List α)) :
    firstNonEmpty (lists ++ [l]) =
      if (firstNonEmpty lists).isEmpty then l else firstNonEmpty lists := by
  induction lists with
  | nil =>
      cases l with
      | nil => rfl
      | cons a l => rfl
  | cons first rest ih =>
      rw [List.cons_append, firstNonEmpty_before, firstNonEmpty_before, ih]
      split
      · rfl
      · rfl

end Sources

namespace PropertiesFrom

variable {sources : List Properties} {own base p : Properties}

theorem alone (own : Properties) : PropertiesFrom [own] own := by
  constructor <;> simp [findSome?_before]

theorem behind (h : PropertiesFrom sources p) (base : Properties) :
    PropertiesFrom (sources ++ [base]) (p.orElse base) := by
  constructor <;> rw [findSome?_behind]
  · rw [← h.size]; rfl
  · rw [← h.access]; rfl
  · rw [← h.protection]; rfl
  · rw [← h.resetValue]; rfl
  · rw [← h.resetMask]; rfl

theorem before (own : Properties) (h : PropertiesFrom sources base) :
    PropertiesFrom (own :: sources) (own.orElse base) := by
  constructor <;> rw [findSome?_before]
  · rw [← h.size]; rfl
  · rw [← h.access]; rfl
  · rw [← h.protection]; rfl
  · rw [← h.resetValue]; rfl
  · rw [← h.resetMask]; rfl

end PropertiesFrom

namespace FieldFrom

variable {sources : List Field} {own f : Field}

theorem alone (own : Field) : FieldFrom own [] { own with derivedFrom := none } := by
  constructor <;> simp [findSome?_before, firstNonEmpty_before]
  intro empty
  rw [empty]
  rfl

theorem behind (h : FieldFrom own sources f) (base : Field) :
    FieldFrom own (sources ++ [base]) (f.orElse base) where
  name := h.name
  derivedFrom := rfl
  description := by rw [← List.cons_append, findSome?_behind, ← h.description]; rfl
  bitRange := by rw [← List.cons_append, findSome?_behind, ← h.bitRange]; rfl
  access := by rw [← List.cons_append, findSome?_behind, ← h.access]; rfl
  writeEffect := by rw [← List.cons_append, findSome?_behind, ← h.writeEffect]; rfl
  writeConstraint := by rw [← List.cons_append, findSome?_behind, ← h.writeConstraint]; rfl
  readEffect := by rw [← List.cons_append, findSome?_behind, ← h.readEffect]; rfl
  dimension := by rw [← List.cons_append, findSome?_behind, ← h.dimension]; rfl
  enumeratedSets := by
    rw [← List.cons_append, List.map_append, List.map_singleton, firstNonEmpty_behind,
      ← h.enumeratedSets]
    rfl

end FieldFrom

namespace RegisterFrom

variable {sources : List Register} {own x base r : Register}

/-- Fields are not an attribute. -/
theorem withFields (h : RegisterFrom own sources r) (fields : List Field) :
    RegisterFrom own sources { r with fields } where
  name := h.name
  derivedFrom := h.derivedFrom
  displayName := h.displayName
  description := h.description
  alternateGroup := h.alternateGroup
  alternateRegister := h.alternateRegister
  addressOffset := h.addressOffset
  properties := h.properties
  dimension := h.dimension
  writeEffect := h.writeEffect
  writeConstraint := h.writeConstraint
  readEffect := h.readEffect

theorem alone (own : Register) : RegisterFrom own [] { own with derivedFrom := none } := by
  constructor <;> first | exact PropertiesFrom.alone _ | simp [findSome?_before]

theorem behind (h : RegisterFrom own sources r) (base : Register) :
    RegisterFrom own (sources ++ [base]) (r.orElse base) where
  name := h.name
  derivedFrom := rfl
  displayName := by rw [← List.cons_append, findSome?_behind, ← h.displayName]; rfl
  description := by rw [← List.cons_append, findSome?_behind, ← h.description]; rfl
  alternateGroup := by rw [← List.cons_append, findSome?_behind, ← h.alternateGroup]; rfl
  alternateRegister := by rw [← List.cons_append, findSome?_behind, ← h.alternateRegister]; rfl
  addressOffset := by rw [← List.cons_append, findSome?_behind, ← h.addressOffset]; rfl
  properties := by
    rw [← List.cons_append, List.map_append]
    exact h.properties.behind base.properties
  dimension := by rw [← List.cons_append, findSome?_behind, ← h.dimension]; rfl
  writeEffect := by rw [← List.cons_append, findSome?_behind, ← h.writeEffect]; rfl
  writeConstraint := by rw [← List.cons_append, findSome?_behind, ← h.writeConstraint]; rfl
  readEffect := by rw [← List.cons_append, findSome?_behind, ← h.readEffect]; rfl

theorem before (own : Register) (h : RegisterFrom x sources base) :
    RegisterFrom own (x :: sources) (own.orElse base) where
  name := rfl
  derivedFrom := rfl
  displayName := by rw [findSome?_before, ← h.displayName]; rfl
  description := by rw [findSome?_before, ← h.description]; rfl
  alternateGroup := by rw [findSome?_before, ← h.alternateGroup]; rfl
  alternateRegister := by rw [findSome?_before, ← h.alternateRegister]; rfl
  addressOffset := by rw [findSome?_before, ← h.addressOffset]; rfl
  properties := .before own.properties h.properties
  dimension := by rw [findSome?_before, ← h.dimension]; rfl
  writeEffect := by rw [findSome?_before, ← h.writeEffect]; rfl
  writeConstraint := by rw [findSome?_before, ← h.writeConstraint]; rfl
  readEffect := by rw [findSome?_before, ← h.readEffect]; rfl

end RegisterFrom

namespace ClusterFrom

variable {sources : List ClusterInfo} {own x base c : ClusterInfo}

theorem alone (own : ClusterInfo) : ClusterFrom own [] { own with derivedFrom := none } := by
  constructor <;> first | exact PropertiesFrom.alone _ | simp [findSome?_before]

theorem behind (h : ClusterFrom own sources c) (base : ClusterInfo) :
    ClusterFrom own (sources ++ [base]) (c.orElse base) where
  name := h.name
  derivedFrom := rfl
  description := by rw [← List.cons_append, findSome?_behind, ← h.description]; rfl
  headerStructName := by rw [← List.cons_append, findSome?_behind, ← h.headerStructName]; rfl
  addressOffset := by rw [← List.cons_append, findSome?_behind, ← h.addressOffset]; rfl
  properties := by
    rw [← List.cons_append, List.map_append]
    exact h.properties.behind base.properties
  dimension := by rw [← List.cons_append, findSome?_behind, ← h.dimension]; rfl

theorem before (own : ClusterInfo) (h : ClusterFrom x sources base) :
    ClusterFrom own (x :: sources) (own.orElse base) where
  name := rfl
  derivedFrom := rfl
  description := by rw [findSome?_before, ← h.description]; rfl
  headerStructName := by rw [findSome?_before, ← h.headerStructName]; rfl
  addressOffset := by rw [findSome?_before, ← h.addressOffset]; rfl
  properties := .before own.properties h.properties
  dimension := by rw [findSome?_before, ← h.dimension]; rfl

end ClusterFrom

namespace PeripheralFrom

variable {sources : List Peripheral} {own p : Peripheral}

/-- Children are not an attribute. -/
theorem withChildren (h : PeripheralFrom own sources p) (children : List Item) :
    PeripheralFrom own sources { p with children } where
  name := h.name
  derivedFrom := h.derivedFrom
  version := h.version
  description := h.description
  groupName := h.groupName
  prependToName := h.prependToName
  appendToName := h.appendToName
  baseAddress := h.baseAddress
  properties := h.properties
  dimension := h.dimension
  addressBlocks := h.addressBlocks
  interrupts := h.interrupts

theorem alone (own : Peripheral) :
    PeripheralFrom own [] { own with derivedFrom := none } := by
  constructor <;>
    first | exact PropertiesFrom.alone _ | simp [findSome?_before, firstNonEmpty_before]
  intro empty
  rw [empty]
  rfl

theorem behind (h : PeripheralFrom own sources p) (base : Peripheral) :
    PeripheralFrom own (sources ++ [base]) (p.orElse base) where
  name := h.name
  derivedFrom := rfl
  version := by rw [← List.cons_append, findSome?_behind, ← h.version]; rfl
  description := by rw [← List.cons_append, findSome?_behind, ← h.description]; rfl
  groupName := by rw [← List.cons_append, findSome?_behind, ← h.groupName]; rfl
  prependToName := by rw [← List.cons_append, findSome?_behind, ← h.prependToName]; rfl
  appendToName := by rw [← List.cons_append, findSome?_behind, ← h.appendToName]; rfl
  baseAddress := by rw [← List.cons_append, findSome?_behind, ← h.baseAddress]; rfl
  properties := by
    rw [← List.cons_append, List.map_append]
    exact h.properties.behind base.properties
  dimension := by rw [← List.cons_append, findSome?_behind, ← h.dimension]; rfl
  addressBlocks := by
    rw [← List.cons_append, List.map_append, List.map_singleton, firstNonEmpty_behind,
      ← h.addressBlocks]
    rfl
  interrupts := h.interrupts

end PeripheralFrom

end ChipMap.Inheritance
