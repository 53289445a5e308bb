import ChipMap.Proofs.Map.Cases
import ChipMap.Proofs.Map.Complete
import ChipMap.Proofs.Map.Located
import ChipMap.Proofs.Map.Sweep
import ChipMap.Proofs.Order.Canonical

/-!
# Where the fields of a register lie

A field stands for one element or for an array of them, and each element says where it lies
(`expanded`).  **The fields of a register are built exactly when each element ends inside the
register and no two share a bit** (`LaidOut`): what is built are the elements, and a fault names one
that ends outside or two that overlap, with the bits that they share.

Two things have to be given for this: the register has up to 64 bits, and the names and values of
its fields can be built (`Buildable`).  Both have faults of their own, which come before or between
those of the layout.

### What is load-bearing

Positions are computed in words and stop at the greatest one, which no register reaches: an element
ends inside its register exactly when it does so without a bound (`buildFieldElement_eq`).  So the
statement can speak of natural numbers, and of elements that the builder never gets to.

The names in a fault are those that the elements have got by then, so they tell the two elements
apart.  An overlap is found after all fields were named and sorted, and a field that ends outside
before that; what the lemmas about one field, all fields and the check say are therefore
alternatives, which are put together in `laidOut`.
-/

namespace ChipMap.Map

open Description (ItemKind Properties Item)

/-! ### The elements of a field -/

/-- **An element of a field**, once its array is expanded.  A field without an array is its only
element. -/
structure FieldElement where
  /-- The field that the element is of. -/
  field : Description.Field
  /-- The name of the element, before it is made an identifier. -/
  name : String
  /-- The bits of the element, however far they reach. -/
  bits : Span

/-- **The elements of a field**: each lies as many increments further as its number says.  Nothing
is clamped. -/
def expanded (f : Description.Field) : List FieldElement :=
  f.bitRange.toList.flatMap fun range =>
    match f.dimension with
    | none => [⟨f, f.name, ⟨range.lsb.toNat, range.msb.toNat + 1⟩⟩]
    | some d => d.elements.zipIdx.map fun (index, i) =>
      let shift := i * d.increment.toNat
      ⟨f, substitute f.name index, ⟨range.lsb.toNat + shift, range.msb.toNat + 1 + shift⟩⟩

/-- **A field of a map is an element**: it lies where the element does, it says what the field of
the element says, and it has the name of the element or this name with a number. -/
structure IsElement (c : FieldContext) (e : FieldElement) (x : Field) : Prop where
  name : ∃ id, Name.identifier? e.name = some id ∧ Name.Numbers id x.name
  description : x.description = e.field.description
  bits : x.bits = e.bits
  access : x.access = e.field.access.getD c.defaults.access
  writeEffect : x.writeEffect = e.field.writeEffect.getD c.defaults.writeEffect
  writeConstraint : x.writeConstraint = e.field.writeConstraint.or c.defaults.writeConstraint
  readEffect : x.readEffect = e.field.readEffect.or c.defaults.readEffect
  cases : buildCases (c.path ++ "." ++ e.field.name) e.bits.width e.field = .ok x.cases

/-- **The elements of some fields under names of their own**, in whatever order. -/
structure Expands (c : FieldContext) (elements : List FieldElement) (named : List Field) : Prop where
  /-- Each element is there once, and there are no others. -/
  elements : Shuffled (IsElement c) elements named
  /-- No two have one name. -/
  names : (named.map (·.name)).Nodup

/-- **A field whose names and values can be built**, wherever it lies.  What is asked concerns the
field alone, and not its siblings or its register. -/
structure Buildable (f : Description.Field) : Prop where
  /-- The names of the elements have identifiers. -/
  names : ∀ e ∈ expanded f, (Name.identifier? e.name).isSome
  /-- So have the names of the cases. -/
  caseNames : ∀ c ∈ f.enumeratedSets.flatMap (·.cases), (Name.identifier? c.name).isSome
  /-- The values of the cases fit the field. -/
  values : ∀ range ∈ f.bitRange, ∀ c ∈ f.enumeratedSets.flatMap (·.cases), ∀ p ∈ c.value,
    p.value.toNat < 2 ^ bitCount range

/-! ### Cases and names that are built -/

theorem identifier_of_isSome (path : String) {name : String} (h : (Name.identifier? name).isSome) :
    ∃ id, identifier path name = .ok id := by
  obtain ⟨id, found⟩ := Option.isSome_iff_exists.mp h
  exact ⟨id, by rw [identifier, found]⟩

/-- **A case whose value fits is built**, if its name has an identifier.  A case without a value is
the default one. -/
theorem exists_buildCase {path : String} {width : Nat} {c : Description.EnumeratedCase}
    (named : (Name.identifier? c.name).isSome) (fits : ∀ p ∈ c.value, p.value.toNat < 2 ^ width) :
    ∃ e, buildCase path width c = .ok e := by
  have pattern : ∃ value, casePattern path c width = .ok value := by
    unfold casePattern
    cases value : c.value with
    | none => exact ⟨_, rfl⟩
    | some p =>
        refine ⟨_, if_neg (not_not.mpr ?_)⟩
        exact Bits.and_not_mask_of_toNat_lt (fits p value)
  obtain ⟨value, hvalue⟩ := pattern
  obtain ⟨id, hid⟩ := identifier_of_isSome path named
  exact ⟨_, bind_eq_ok.mpr ⟨value, hvalue, bind_eq_ok.mpr ⟨id, hid, rfl⟩⟩⟩

theorem exists_buildCases (path : String) {f : Description.Field} {range : Description.BitRange}
    (buildable : Buildable f) (hrange : f.bitRange = some range) :
    ∃ cases, buildCases path (min (bitCount range) 64) f = .ok cases := by
  have each : ∀ c ∈ f.enumeratedSets.flatMap (·.cases),
      ∃ e, buildCase path (min (bitCount range) 64) c = .ok e := by
    intro c hc
    refine exists_buildCase (buildable.caseNames c hc) fun p hp => ?_
    rcases Nat.le_total (bitCount range) 64 with narrow | wide
    · rw [Nat.min_eq_left narrow]
      exact buildable.values range hrange c hc p hp
    · rw [Nat.min_eq_right wide]
      exact p.value.isLt
  obtain ⟨built, hbuilt⟩ := exists_mapM_eq_ok each
  exact ⟨_, bind_eq_ok.mpr ⟨built, hbuilt, rfl⟩⟩

/-! ### One field -/

section Field

variable {c : FieldContext} {f : Description.Field} {range : Description.BitRange}

/-- The elements are built from their names and from where they begin, as far as words go. -/
theorem instances_eq (hrange : f.bitRange = some range) :
    instances f.name range.lsb.toNat f.dimension =
      (expanded f).map fun e => (e.name, clamp e.bits.start) := by
  rw [expanded, hrange, Option.toList_some, List.flatMap_singleton]
  cases f.dimension with
  | none =>
      rw [instances, List.map_singleton, clamp_of_le range.lsb.toNat_le_greatest]
  | some d =>
      rw [instances, indexed, List.map_map, List.map_map]
      refine List.map_congr_left ?_
      rintro ⟨index, i⟩ -
      simp only [Function.comp_apply, elementOffset, clampedAdd, clampedMul, clamp_add_clamp]

/-- What an element has of its field: it is as wide, and not empty. -/
theorem of_mem_expanded (hrange : f.bitRange = some range) (ranged : f.Ranged) {e : FieldElement}
    (he : e ∈ expanded f) :
    e.field = f ∧ e.bits.stop = e.bits.start + bitCount range ∧ e.bits.start < e.bits.stop := by
  have order := ranged range hrange
  rw [expanded, hrange, Option.toList_some, List.flatMap_singleton] at he
  unfold bitCount
  cases hd : f.dimension with
  | none =>
      rw [hd] at he
      obtain rfl := List.mem_singleton.mp he
      refine ⟨rfl, ?_, ?_⟩
      · dsimp only
        omega
      · dsimp only
        omega
  | some d =>
      rw [hd] at he
      obtain ⟨⟨index, i⟩, -, rfl⟩ := List.mem_map.mp he
      refine ⟨rfl, ?_, ?_⟩
      · dsimp only
        omega
      · dsimp only
        omega

/-- The fault of an element that ends outside its register.  The bits in it are those of the
element, as far as words go. -/
def FieldContext.outside (c : FieldContext) (e : FieldElement) : MapFault :=
  .fieldOutOfBounds c.path e.name ⟨clamp e.bits.start, clamp e.bits.stop⟩ c.size

/-- The field that an element becomes under an identifier. -/
def FieldContext.placed (c : FieldContext) (e : FieldElement) (id : String)
    (cases : List EnumCase) : Field where
  name := id
  description := e.field.description
  bits := e.bits
  access := e.field.access.getD c.defaults.access
  writeEffect := e.field.writeEffect.getD c.defaults.writeEffect
  writeConstraint := e.field.writeConstraint.or c.defaults.writeConstraint
  readEffect := e.field.readEffect.or c.defaults.readEffect
  cases := cases

/-- **An element is built when it ends inside its register**, counted without a bound.  Up to 64 no
position is clamped. -/
theorem buildFieldElement_eq (small : c.size ≤ 64) {e : FieldElement} {path id : String}
    {width : Nat} {cases : List EnumCase} (named : Name.identifier? e.name = some id)
    (stop : e.bits.stop = e.bits.start + width) :
    buildFieldElement c.path path c.size width c.defaults cases e.field
        (e.name, clamp e.bits.start) =
      if c.size < e.bits.stop then .error (c.outside e) else .ok (c.placed e id cases) := by
  have reached : clampedAdd (clamp e.bits.start) width = clamp e.bits.stop := by
    rw [clampedAdd, clamp_clamp_add, stop]
  have inside : c.size < clamp e.bits.stop ↔ c.size < e.bits.stop := by
    unfold clamp Word.greatest
    omega
  unfold buildFieldElement
  rw [reached]
  dsimp only
  by_cases outside : c.size < e.bits.stop
  · rw [if_pos outside, if_pos (inside.mpr outside)]
    rfl
  · have unbounded : Span.mk (clamp e.bits.start) (clamp e.bits.stop) = e.bits := by
      have low : clamp e.bits.start = e.bits.start := clamp_of_le (by unfold Word.greatest; omega)
      have high : clamp e.bits.stop = e.bits.stop := clamp_of_le (by unfold Word.greatest; omega)
      rw [low, high]
    rw [if_neg outside, if_neg fun h => outside (inside.mp h), unbounded, identifier, named]
    rfl

/-- **A field is an element under its own identifier**, before the names of a register are told
apart. -/
structure IsElement.Plain (c : FieldContext) (e : FieldElement) (x : Field) : Prop where
  element : IsElement c e x
  name : Name.identifier? e.name = some x.name
  nonempty : x.bits.start < x.bits.stop

/-- **What an element is built to** ends inside the register and is the element. -/
theorem plain_of_built (small : c.size ≤ 64) (hrange : f.bitRange = some range) (ranged : f.Ranged)
    {cases : List EnumCase}
    (hcases : buildCases (c.path ++ "." ++ f.name) (min (bitCount range) 64) f = .ok cases)
    {e : FieldElement} (he : e ∈ expanded f) {x : Field}
    (done : buildFieldElement c.path (c.path ++ "." ++ f.name) c.size (bitCount range) c.defaults
      cases f (e.name, clamp e.bits.start) = .ok x) :
    e.bits.stop ≤ c.size ∧ IsElement.Plain c e x := by
  obtain ⟨-, id, named, -⟩ := buildFieldElement_ok done
  obtain ⟨rfl, stop, nonempty⟩ := of_mem_expanded hrange ranged he
  rw [buildFieldElement_eq small named stop] at done
  split at done
  · cases done
  · next inside =>
    obtain rfl := Except.ok.inj done
    have width : e.bits.width = min (bitCount range) 64 := by
      unfold Span.width
      omega
    refine ⟨Nat.not_lt.mp inside, ⟨⟨id, named, .inl rfl⟩, rfl, rfl, rfl, rfl, rfl, rfl, ?_⟩,
      named, nonempty⟩
    rw [width]
    exact hcases

/-- **A field that is built is its elements**, each under its own identifier. -/
theorem field_elements (small : c.size ≤ 64) (ranged : f.Ranged) {built : List Field}
    (h : c.field f = .ok built) : List.Forall₂ (IsElement.Plain c) (expanded f) built := by
  obtain ⟨range, cases, hrange, hcases, elements⟩ := buildField_ok h
  rw [instances_eq hrange, List.forall₂_map_left_iff] at elements
  exact (forall₂_members elements).imp fun e x ⟨he, _, done⟩ =>
    (plain_of_built small hrange ranged hcases he done).2

/-- **A field is built when its elements end inside the register**; else one of them does not.  It
is the first such element that the fault is about, but which one it is does not matter. -/
theorem field_cases (small : c.size ≤ 64) (complete : f.bitRange.isSome) (ranged : f.Ranged)
    (buildable : Buildable f) :
    (∃ e ∈ expanded f, c.size < e.bits.stop ∧ c.field f = .error (c.outside e)) ∨
      (∀ e ∈ expanded f, e.bits.stop ≤ c.size) ∧
        ∃ built, c.field f = .ok built ∧ List.Forall₂ (IsElement.Plain c) (expanded f) built := by
  obtain ⟨range, hrange⟩ := Option.isSome_iff_exists.mp complete
  obtain ⟨cases, hcases⟩ := exists_buildCases (c.path ++ "." ++ f.name) buildable hrange
  have run : c.field f = ((expanded f).map fun e => (e.name, clamp e.bits.start)).mapM
      (buildFieldElement c.path (c.path ++ "." ++ f.name) c.size (bitCount range) c.defaults
        cases f) := by
    rw [← instances_eq hrange, FieldContext.field, buildField, hrange]
    simp only [given, bind, Except.bind, hcases]
  -- An element is at fault exactly when it ends beyond the register.
  have element {e : FieldElement} (he : e ∈ expanded f) : ∃ id, Name.identifier? e.name = some id ∧
      buildFieldElement c.path (c.path ++ "." ++ f.name) c.size (bitCount range) c.defaults cases f
          (e.name, clamp e.bits.start) =
        if c.size < e.bits.stop then .error (c.outside e) else .ok (c.placed e id cases) := by
    obtain ⟨rfl, stop, -⟩ := of_mem_expanded hrange ranged he
    obtain ⟨id, named⟩ := Option.isSome_iff_exists.mp (buildable.names e he)
    exact ⟨id, named, buildFieldElement_eq small named stop⟩
  cases result : c.field f with
  | error fault =>
      rw [run] at result
      obtain ⟨_, member, failed⟩ := exists_of_mapM_eq_error result
      obtain ⟨e, he, rfl⟩ := List.mem_map.mp member
      obtain ⟨id, -, known⟩ := element he
      rw [known] at failed
      split at failed
      · next outside => exact .inl ⟨e, he, outside, by rw [Except.error.inj failed]⟩
      · cases failed
  | ok built =>
      rw [run, mapM_eq_ok, List.forall₂_map_left_iff] at result
      have each : List.Forall₂ (fun e x => e.bits.stop ≤ c.size ∧ IsElement.Plain c e x)
          (expanded f) built := by
        refine (forall₂_members result).imp fun e x member => ?_
        obtain ⟨he, -, done⟩ := member
        exact plain_of_built small hrange ranged hcases he done
      refine .inr ⟨fun e he => ?_, built, rfl, each.imp fun e x h => h.2⟩
      obtain ⟨x, -, inside, -⟩ := exists_of_forall₂ each he
      exact inside

end Field

/-! ### Names of their own

The names of a register's fields are claimed when all fields are there.  An element whose name is
taken gets a number, and stays the element. -/

/-- A field under its name with a number is still the element. -/
theorem IsElement.Plain.rename {c : FieldContext} {e : FieldElement} {x : Field}
    (h : IsElement.Plain c e x) {n : String} (numbers : Name.Numbers x.name n) :
    IsElement c e { x with name := n } where
  name := ⟨x.name, h.name, numbers⟩
  description := h.element.description
  bits := h.element.bits
  access := h.element.access
  writeEffect := h.element.writeEffect
  writeConstraint := h.element.writeConstraint
  readEffect := h.element.readEffect
  cases := h.element.cases

/-- Fields under names of their own, in canonical order. -/
def namedFields (built : List Field) : List Field :=
  sortFields <|
    Name.renameInOrder (Name.lexLe Name.natLe) (fun f => (f.name, f.bits.start)) (·.name)
      (fun f name => { f with name }) built

section Named

variable {c : FieldContext} {elements : List FieldElement} {built : List Field}

/-- **Elements stay elements** under names of their own, and no two of them have one name. -/
theorem namedFields_expands (plain : List.Forall₂ (IsElement.Plain c) elements built) :
    Expands c elements (namedFields built) := by
  constructor
  · have renamed : Shuffled (IsElement c) elements
        (Name.renameInOrder (Name.lexLe Name.natLe) (fun f : Field => (f.name, f.bits.start))
          (·.name) (fun f name => { f with name }) built) :=
      .comp plain (Name.renameInOrder_shuffled Name.Claimed.choose_numbers built)
        fun e x y h ⟨n, same, numbers⟩ => same ▸ h.rename numbers
    obtain ⟨between, pairs, p⟩ := renamed
    exact ⟨between, pairs, p.trans (Name.sortOn_perm _ _ _).symm⟩
  · have keys : ((Name.renameInOrder (Name.lexLe Name.natLe)
        (fun f : Field => (f.name, f.bits.start)) (·.name) (fun f name => { f with name })
        built).map fun x => Name.distinctKey x.name).Nodup :=
      Name.renameInOrder_nodup fun _ _ => rfl
    refine ((Name.sortOn_perm _ _ _).map _).nodup_iff.mpr (.of_map Name.distinctKey ?_)
    rwa [List.map_map]

theorem namedFields_nonempty (plain : List.Forall₂ (IsElement.Plain c) elements built) :
    ∀ x ∈ namedFields built, x.bits.start < x.bits.stop := by
  intro x hx
  refine Name.forall_mem_renameInOrder (P := fun x : Field => x.bits.start < x.bits.stop) ?_ x
    (Name.mem_sortOn.mp hx)
  intro x hx n _
  obtain ⟨e, -, h⟩ := exists_of_forall₂ plain.flip hx
  exact h.nonempty

/-- Fields in canonical order have their bits in the order that a sweep asks for. -/
theorem namedFields_before (names : ((namedFields built).map (·.name)).Nodup) :
    ((namedFields built).map Field.span).Pairwise NamedSpan.Before := by
  have spans (xs : List Field) : (sortFields xs).map Field.span = bySpan (xs.map Field.span) :=
    @Name.map_sortOn NamedSpan _ (Name.lexLe Name.textLe) (fun s => (s.span.start, s.name)) Field
      Field.span xs
  rw [namedFields, spans]
  refine bySpan_pairwise ?_
  rw [List.map_map]
  exact ((Name.sortOn_perm _ _ _).map _).nodup_iff.mp names

end Named

/-- **Named fields pass the check when no two share a bit**; else the fault is an overlap of two.
The check is a sweep over fields in order. -/
theorem checkFields_cases {path : String} {fields : List Field}
    (names : (fields.map (·.name)).Nodup)
    (order : (fields.map Field.span).Pairwise NamedSpan.Before)
    (nonempty : ∀ x ∈ fields, x.bits.start < x.bits.stop) :
    (checkFields path fields = .ok fields ∧
      fields.Pairwise fun x y => ¬x.bits.Meets y.bits) ∨
    ∃ o : Overlap, checkFields path fields = .error (.fieldOverlap path o.first o.second o.shared) ∧
      ∃ a ∈ fields, ∃ b ∈ fields, a.name ≠ b.name ∧ o.Of a.span b.span := by
  unfold checkFields
  cases found : overlapsAfter none (fields.map Field.span) with
  | nil =>
      refine .inl ⟨rfl, ?_⟩
      have apart := List.pairwise_map.mp (overlapsAfter_eq_nil_iff.mp found).2
      refine apart.imp fun {x y} apart meets => ?_
      have shared := (Span.meets_iff.mp meets).2.1
      have : x.bits.stop ≤ y.bits.start := apart
      omega
  | cons o rest =>
      refine .inr ⟨o, rfl, ?_⟩
      have member : o ∈ overlapsAfter none (fields.map Field.span) := found ▸ List.mem_cons_self
      obtain ⟨_, first, _, second, other, of⟩ := exists_of_sorted (by rwa [List.map_map]) order
        (List.forall_mem_map.mpr nonempty) member
      obtain ⟨a, ha, rfl⟩ := List.mem_map.mp first
      obtain ⟨b, hb, rfl⟩ := List.mem_map.mp second
      exact ⟨a, ha, b, hb, other, of⟩

/-! ### All fields of a register -/

section Fields

variable {c : FieldContext} {fields : List Description.Field}

/-- **Fields are named and checked when all elements end inside the register**; else one of them
does not. -/
theorem fields_cases (small : c.size ≤ 64) (complete : ∀ f ∈ fields, f.bitRange.isSome)
    (ranged : ∀ f ∈ fields, f.Ranged) (buildable : ∀ f ∈ fields, Buildable f) :
    (∃ e ∈ fields.flatMap expanded, c.size < e.bits.stop ∧
      c.fields fields = .error (c.outside e)) ∨
    (∀ e ∈ fields.flatMap expanded, e.bits.stop ≤ c.size) ∧
      ∃ built, List.Forall₂ (IsElement.Plain c) (fields.flatMap expanded) built ∧
        c.fields fields = checkFields c.path (namedFields built) := by
  have each (f : Description.Field) (hf : f ∈ fields) :=
    field_cases small (complete f hf) (ranged f hf) (buildable f hf)
  cases run : fields.mapM c.field with
  | error fault =>
      obtain ⟨f, hf, failed⟩ := exists_of_mapM_eq_error run
      rcases each f hf with ⟨e, he, outside, fault'⟩ | ⟨-, built, done, -⟩
      · obtain rfl := Except.error.inj (failed.symm.trans fault')
        exact .inl ⟨e, List.mem_flatMap.mpr ⟨f, hf, he⟩, outside, bind_eq_error.mpr (.inl run)⟩
      · cases failed.symm.trans done
  | ok lists =>
      have placed {f : Description.Field} {built : List Field} (hf : f ∈ fields)
          (done : c.field f = .ok built) : (∀ e ∈ expanded f, e.bits.stop ≤ c.size) ∧
            List.Forall₂ (IsElement.Plain c) (expanded f) built := by
        rcases each f hf with ⟨e, -, -, failed⟩ | ⟨inside, built', done', plain⟩
        · cases done.symm.trans failed
        · obtain rfl := Except.ok.inj (done.symm.trans done')
          exact ⟨inside, plain⟩
      refine .inr ⟨fun e he => ?_, lists.flatten, ?_, ?_⟩
      · obtain ⟨f, hf, he⟩ := List.mem_flatMap.mp he
        obtain ⟨built, -, done⟩ := exists_of_forall₂ (mapM_eq_ok.mp run) hf
        exact (placed hf done).1 e he
      · rw [List.flatMap_def]
        refine List.rel_flatten (List.forall₂_map_left_iff.mpr ?_)
        exact (forall₂_members (mapM_eq_ok.mp run)).imp fun f built ⟨hf, _, done⟩ =>
          (placed hf done).2
      · change (fields.mapM c.field >>= _) = _
        rw [run]
        rfl

/-- **Fields that are built are their elements**, under names of their own. -/
theorem fields_expand (small : c.size ≤ 64) (ranged : ∀ f ∈ fields, f.Ranged) {built : List Field}
    (h : c.fields fields = .ok built) : Expands c (fields.flatMap expanded) built := by
  obtain ⟨lists, hlists, checked⟩ := bind_eq_ok.mp h
  obtain ⟨rfl, -⟩ := checkFields_ok checked
  refine namedFields_expands ?_
  rw [List.flatMap_def]
  refine List.rel_flatten (List.forall₂_map_left_iff.mpr ?_)
  exact (forall₂_members (mapM_eq_ok.mp hlists)).imp fun f own ⟨hf, _, done⟩ =>
    field_elements small (ranged f hf) done

/-- **How the fields of a register are laid out.**  The four parts hold together of every register,
whether or not its fields can be built. -/
structure LaidOut (c : FieldContext) (fields : List Description.Field) : Prop where
  /-- The fields are built exactly when each element ends inside the register and no two share a
  bit. -/
  built : (∃ built, c.fields fields = .ok built) ↔
    (∀ e ∈ fields.flatMap expanded, e.bits.stop ≤ c.size) ∧
      (fields.flatMap expanded).Pairwise fun e e' => ¬e.bits.Meets e'.bits
  /-- What is built are the elements. -/
  expands : ∀ built, c.fields fields = .ok built → Expands c (fields.flatMap expanded) built
  /-- A reported overlap is one of two elements under their names, with exactly the bits that they
  share. -/
  overlap : ∀ path first second bits,
    c.fields fields = .error (.fieldOverlap path first second bits) →
      path = c.path ∧ ∃ named, Expands c (fields.flatMap expanded) named ∧
        ∃ a ∈ named, ∃ b ∈ named, a.name ≠ b.name ∧
          Overlap.Of ⟨first, second, bits⟩ a.span b.span
  /-- The only other fault is that of an element that ends outside. -/
  fault : ∀ fault, c.fields fields = .error fault →
    (∃ e ∈ fields.flatMap expanded, c.size < e.bits.stop ∧ fault = c.outside e) ∨
      ∃ first second bits, fault = .fieldOverlap c.path first second bits

/-- Elements share no bit when the fields that they are do not.  The order of the two lists differs,
but sharing no bit is symmetric. -/
theorem Expands.pairwise_iff {elements : List FieldElement} {named : List Field}
    (h : Expands c elements named) : (elements.Pairwise fun e e' => ¬e.bits.Meets e'.bits) ↔
      named.Pairwise fun x y => ¬x.bits.Meets y.bits := by
  have same : (elements.map (·.bits)).Perm (named.map (·.bits)) :=
    (h.elements.map fun _ _ element => element.bits.symm).perm
  have symmetric {a b : Span} (apart : ¬a.Meets b) : ¬b.Meets a := fun meets => apart meets.symm
  rw [← List.pairwise_map (f := fun e : FieldElement => e.bits) (R := fun a b => ¬a.Meets b),
    ← List.pairwise_map (f := fun x : Field => x.bits) (R := fun a b => ¬a.Meets b)]
  exact same.pairwise_iff symmetric

/-- **The fields of a register of up to 64 bits are laid out** if their names and values can be
built. -/
theorem laidOut (small : c.size ≤ 64) (complete : ∀ f ∈ fields, f.bitRange.isSome)
    (ranged : ∀ f ∈ fields, f.Ranged) (buildable : ∀ f ∈ fields, Buildable f) :
    LaidOut c fields := by
  rcases fields_cases small complete ranged buildable with
    ⟨e, he, outside, run⟩ | ⟨inside, built, plain, run⟩
  · refine ⟨⟨?_, ?_⟩, ?_, ?_, ?_⟩
    · rintro ⟨built, done⟩
      cases run.symm.trans done
    · rintro ⟨inside, -⟩
      exact absurd (inside e he) (Nat.not_le.mpr outside)
    · intro built done
      cases run.symm.trans done
    · intro path first second bits failed
      cases run.symm.trans failed
    · intro fault failed
      exact .inl ⟨e, he, outside, Except.error.inj (failed.symm.trans run)⟩
  · have expands := namedFields_expands plain
    rcases checkFields_cases expands.names (namedFields_before expands.names)
      (namedFields_nonempty plain) with ⟨done, apart⟩ | ⟨o, failed, a, ha, b, hb, other, of⟩
    · rw [← run] at done
      refine ⟨iff_of_true ⟨_, done⟩ ⟨inside, expands.pairwise_iff.mpr apart⟩, ?_, ?_, ?_⟩
      · intro built done'
        rwa [← Except.ok.inj (done.symm.trans done')]
      · intro path first second bits failed
        cases done.symm.trans failed
      · intro fault failed
        cases done.symm.trans failed
    · rw [← run] at failed
      refine ⟨⟨?_, ?_⟩, ?_, ?_, ?_⟩
      · rintro ⟨built, done⟩
        cases failed.symm.trans done
      · rintro ⟨-, apart⟩
        -- The overlap that is reported is one of two elements, whichever of them comes first.
        have symmetric : Std.Symm fun x y : Field => ¬x.bits.Meets y.bits :=
          ⟨fun x y h meets => h meets.symm⟩
        refine absurd of.meets ((expands.pairwise_iff.mp apart).forall ha hb fun same => ?_)
        exact other (congrArg (·.name) same)
      · intro built done
        cases failed.symm.trans done
      · intro path first second bits failed'
        obtain ⟨rfl, rfl, rfl, rfl⟩ :=
          MapFault.fieldOverlap.inj (Except.error.inj (failed.symm.trans failed'))
        exact ⟨rfl, _, expands, a, ha, b, hb, other, of⟩
      · intro fault failed'
        exact .inr ⟨_, _, _, (Except.error.inj (failed.symm.trans failed')).symm⟩

end Fields

/-! ### Documents -/

/-- Every level of a description with all positions has them too. -/
theorem ItemLevel.complete {d : Description.Device} {parent : String} {outer : Properties}
    {affix : Affix} {children : List Item} (level : ItemLevel d parent outer affix children)
    (complete : d.Complete) : ∀ c ∈ children, c.Complete := by
  induction level with
  | peripheral hp => exact (complete _ hp).2
  | cluster _ mem ih => exact (ih _ mem).of_cluster.2

/-- **The fields of every register of a document are laid out**, if the register has up to 64 bits
and the names and values of its fields can be built. -/
theorem resolvedOfText_laidOut {text : String} {d : Description.Device}
    (h : resolvedOfText text = .ok d) {parent : String} {outer : Properties} {affix : Affix}
    {children : List Item} (level : ItemLevel d parent outer affix children)
    {r : Description.Register} (hr : .register r ∈ children)
    (small : (fieldContext parent outer r).size ≤ 64) (buildable : ∀ f ∈ r.fields, Buildable f) :
    LaidOut (fieldContext parent outer r) r.fields := by
  have complete := level.complete (complete_of_resolvedOfText h) _ hr
  have ranged := level.ranged (ranged_of_resolvedOfText h) _ hr
  exact laidOut small complete.of_register.2 ranged.of_register buildable

/-- A document with two arrays of fields: four bits each in the first register, and five bits each
in the second one. -/
def nibbles : String :=
  "<device><name>D</name><peripherals><peripheral><name>P</name><baseAddress>0</baseAddress>
  <registers><register><name>R</name><addressOffset>0</addressOffset><fields><field><dim>2</dim>
  <dimIncrement>4</dimIncrement><name>F</name><bitRange>[3:0]</bitRange></field></fields></register>
  <register><name>S</name><addressOffset>4</addressOffset><fields><field><dim>2</dim>
  <dimIncrement>4</dimIncrement><name>F</name><bitRange>[4:0]</bitRange></field></fields></register>
  </registers></peripheral></peripherals></device>"

/-- An array of two fields that begin at every fourth bit. -/
def pair (msb : Word) : Description.Field where
  name := "F"
  derivedFrom := none
  description := none
  bitRange := some ⟨0, msb⟩
  access := none
  writeEffect := none
  writeConstraint := none
  readEffect := none
  dimension := some ⟨2, 4, none, none⟩
  enumeratedSets := []

/-- The registers of the document. -/
def nibbleRegisters : List Description.Register :=
  [Inheritance.plainRegister "R" 0 none [pair 3], Inheritance.plainRegister "S" 4 none [pair 4]]

set_option maxRecDepth 4000 in
theorem resolvedOfText_nibbles :
    resolvedOfText nibbles = .ok (Inheritance.oneBlock nibbleRegisters) := by
  have written : nibbles = String.ofList _ := rfl
  have read := Description.ofText_eq written
  rw [resolvedOfText, read]
  cbv

theorem expanded_pair (msb : Word) : expanded (pair msb) =
    [⟨pair msb, "F0", ⟨0, msb.toNat + 1⟩⟩, ⟨pair msb, "F1", ⟨4, msb.toNat + 1 + 4⟩⟩] := by
  cbv

theorem pair_buildable (msb : Word) : Buildable (pair msb) where
  names := by
    have first : (Name.identifier? "F0").isSome = true := by decide
    have second : (Name.identifier? "F1").isSome = true := by decide
    rw [expanded_pair]
    exact List.forall_mem_cons.mpr ⟨first, List.forall_mem_singleton.mpr second⟩
  caseNames _ none_ := nomatch none_
  values _ _ _ none_ := nomatch none_

/-- What the two registers tell the builders of their fields. -/
def nibbleContext (name : String) : FieldContext :=
  ⟨"P." ++ name, 32, ⟨.readWrite, .modify, none, none⟩⟩

/-- The fields of the first register share no bit and those of the second one do. -/
theorem resolvedOfText_laidOut_nibbles :
    resolvedOfText nibbles = .ok (Inheritance.oneBlock nibbleRegisters) ∧
      (LaidOut (nibbleContext "R") [pair 3] ∧
        ∃ built, (nibbleContext "R").fields [pair 3] = .ok built) ∧
      LaidOut (nibbleContext "S") [pair 4] ∧
        ¬∃ built, (nibbleContext "S").fields [pair 4] = .ok built := by
  have level := ItemLevel.peripheral (d := Inheritance.oneBlock nibbleRegisters)
    List.mem_cons_self
  have first : LaidOut (nibbleContext "R") [pair 3] :=
    resolvedOfText_laidOut resolvedOfText_nibbles level List.mem_cons_self (by decide)
      (List.forall_mem_singleton.mpr (pair_buildable 3))
  have second : LaidOut (nibbleContext "S") [pair 4] :=
    resolvedOfText_laidOut resolvedOfText_nibbles level
      (List.mem_cons_of_mem _ List.mem_cons_self) (by decide)
      (List.forall_mem_singleton.mpr (pair_buildable 4))
  have elements (msb : Word) : [pair msb].flatMap expanded = _ :=
    (List.flatMap_singleton expanded (pair msb)).trans (expanded_pair msb)
  refine ⟨resolvedOfText_nibbles, ⟨first, first.built.mpr ?_⟩, second, fun done => ?_⟩
  · rw [elements]
    decide
  · have built := second.built.mp done
    rw [elements] at built
    exact absurd built.2 (by decide)

end ChipMap.Map
