import ChipMap.Proofs.Map.OfText
import ChipMap.Proofs.Source.Scopes

/-!
# The variants of a field

A case stands for a value when it has the value and every bit of the field takes part.  The variants
of a field are one for each value that a case stands for, made of the first such case, and their
values are distinct and fit the field.

The case that is the default stands for what no other case names, and is no variant.  **No default
case becomes a variant exactly when default cases only repeat the values of others**
(`ofText_variants`): one that has a value of its own is written as a variant of this value
(`not_variantsFor_settled`).

### What is load-bearing

Default cases are the last ones of a field, so the first case of a value is a default one only if
all cases of the value are (`firstFor_settled_iff`).

That a case is no variant is said of its name, since a variant does not say which case it is made
of.  The names of cases have distinct keys and camel case keeps them, so a variant that is made of
another case has another name (`variant_name_ne`).
-/

namespace ChipMap.Source

open Map (EnumCase Peripheral CasesWellFormed)

/-! ### Cases that stand for a value -/

/-- **A case stands for a value** in a field of `width` bits: it has the value, and every bit of the
field takes part. -/
def StandsFor (width : Nat) (value : Word) (c : EnumCase) : Prop :=
  c.value = some value ∧ Bits.mask ⟨0, width⟩ &&& c.mask = Bits.mask ⟨0, width⟩

instance (width : Nat) (value : Word) : DecidablePred (StandsFor width value) :=
  fun _ => inferInstanceAs (Decidable (_ ∧ _))

/-- A case whose mask fits the field has all bits of the field or lacks one. -/
theorem standsFor_iff {width : Nat} {value : Word} {c : EnumCase}
    (fits : c.mask.toNat < 2 ^ width) :
    StandsFor width value c ↔ c.value = some value ∧ c.mask = Bits.mask ⟨0, width⟩ := by
  rw [StandsFor, BitVec.and_comm, Bits.and_mask_of_toNat_lt fits]

/-- A case that is not the default. -/
def isSettled (c : EnumCase) : Bool := !c.isDefault

/-- **The first case of a field that stands for a value**, of those that are admitted. -/
def firstFor (f : Map.Field) (admitted : EnumCase → Bool) (value : Word) : Option EnumCase :=
  f.cases.find? fun c => decide (StandsFor f.width value c) && admitted c

/-- The variant of a case, with the name in camel case. -/
def Variant.ofCase (c : EnumCase) (value : Word) : Variant where
  docs := docLines c.description
  name := Name.camelCase c.name
  value := value

@[simp] theorem Variant.ofCase_name (c : EnumCase) (value : Word) :
    (Variant.ofCase c value).name = Name.camelCase c.name := by
  rw [Variant.ofCase]

/-- **The variants of a field are those of the cases that are admitted.** -/
structure VariantsFor (f : Map.Field) (admitted : EnumCase → Bool) (variants : List Variant) :
    Prop where
  /-- There is a variant for each value that a case stands for: that of the first such case. -/
  each : ∀ v, v ∈ variants ↔ ∃ value c, firstFor f admitted value = some c ∧ v = .ofCase c value
  /-- No other case becomes a variant. -/
  only : ∀ c ∈ f.cases, admitted c = false → ∀ v ∈ variants, v.name ≠ Name.camelCase c.name
  distinct : (variants.map (·.value)).Nodup
  fits : ∀ v ∈ variants, v.value.toNat < 2 ^ f.width

/-- **Default cases only repeat the values of others.** -/
def DefaultsRepeat (f : Map.Field) : Prop :=
  ∀ c ∈ f.cases, c.isDefault = true → ∀ value, StandsFor f.width value c →
    ∃ other ∈ f.cases, other.isDefault = false ∧ StandsFor f.width value other

/-! ### Cases that become variants -/

/-- **A case becomes a variant** when it is the first one with its value and the mask, and the value
is none of those before. -/
theorem mem_distinctCases {mask value : Word} {c : EnumCase} (cases : List EnumCase) :
    ∀ seen : List Word, (c, value) ∈ distinctCases mask seen cases ↔
      value ∉ seen ∧ cases.find? (fun x => x.value = some value ∧ x.mask = mask) = some c := by
  induction cases with
  | nil => simp [distinctCases]
  | cons x rest ih =>
      intro seen
      rw [distinctCases]
      split
      · next none_ => rw [ih, List.find?_cons_of_neg (by simp [none_])]
      · next own some_ =>
        split
        · next takes =>
          rw [List.mem_cons, ih, Prod.mk.injEq]
          by_cases same : value = own
          · subst same
            rw [List.find?_cons_of_pos (by simp [some_, takes.1])]
            simp [takes.2, eq_comm]
          · rw [List.find?_cons_of_neg (by simp [some_, Ne.symm same])]
            simp [same]
        · next passes =>
          rw [ih]
          refine and_congr_right fun fresh => ?_
          rw [List.find?_cons_of_neg]
          rintro match_
          simp only [some_, Option.some.injEq, decide_eq_true_eq] at match_
          exact passes ⟨match_.2, match_.1 ▸ fresh⟩

/-- **No value becomes two variants.** -/
theorem distinctCases_values (mask : Word) (cases : List EnumCase) : ∀ seen : List Word,
    ((distinctCases mask seen cases).map (·.2)).Nodup := by
  induction cases with
  | nil => exact fun _ => List.nodup_nil
  | cons x rest ih =>
      intro seen
      rw [distinctCases]
      split
      · exact ih seen
      · next own _ =>
        split
        · refine List.nodup_cons.mpr ⟨fun again => ?_, ih _⟩
          obtain ⟨⟨c, value⟩, hc, rfl⟩ := List.mem_map.mp again
          exact ((mem_distinctCases rest _).mp hc).1 List.mem_cons_self
        · exact ih seen

section Field

variable {f : Map.Field} {value : Word} {c : EnumCase}

theorem standsFor_of_firstFor {admitted : EnumCase → Bool} (h : firstFor f admitted value = some c) :
    c ∈ f.cases ∧ StandsFor f.width value c ∧ admitted c = true := by
  have found := List.find?_some h
  rw [Bool.and_eq_true, decide_eq_true_eq] at found
  exact ⟨List.mem_of_find?_eq_some h, found⟩

/-- A case is found when some case stands for the value. -/
theorem exists_firstFor (admitted : EnumCase → Bool) (hc : c ∈ f.cases)
    (stands : StandsFor f.width value c) (may : admitted c = true) :
    ∃ first, firstFor f admitted value = some first := by
  refine Option.isSome_iff_exists.mp (List.find?_isSome.mpr ⟨c, hc, ?_⟩)
  rw [may, Bool.and_true, decide_eq_true_eq]
  exact stands

variable (wellFormed : CasesWellFormed f.width f.cases)

include wellFormed

/-- **The variants of a field**, whichever cases are the default. -/
theorem mem_variants {v : Variant} :
    v ∈ variants f ↔ ∃ value c, firstFor f (fun _ => true) value = some c ∧ v = .ofCase c value := by
  have first (value : Word) : firstFor f (fun _ => true) value =
      f.cases.find? fun c => c.value = some value ∧ c.mask = Bits.mask ⟨0, f.width⟩ := by
    refine List.find?_congr fun c hc => ?_
    rw [Bool.and_true]
    exact decide_eq_decide.mpr (standsFor_iff (wellFormed.mask c hc))
  constructor
  · intro hv
    obtain ⟨⟨c, value⟩, hc, rfl⟩ := List.mem_map.mp hv
    exact ⟨value, c, first value ▸ ((mem_distinctCases f.cases []).mp hc).2, rfl⟩
  · rintro ⟨value, c, found, rfl⟩
    have hc : (c, value) ∈ distinctCases (Bits.mask ⟨0, f.width⟩) [] f.cases :=
      (mem_distinctCases f.cases []).mpr ⟨List.not_mem_nil, first value ▸ found⟩
    exact List.mem_map_of_mem hc

/-- **The first case that stands for a value is the default one only if all are.** -/
theorem firstFor_settled_iff : firstFor f isSettled value = some c ↔
    firstFor f (fun _ => true) value = some c ∧ c.isDefault = false := by
  simp only [firstFor, List.find?_eq_some_iff_append, Bool.and_true, Bool.and_eq_true, isSettled,
    Bool.not_eq_true', Bool.not_and, Bool.or_eq_true]
  constructor
  · rintro ⟨⟨stands, settled⟩, before, behind, split, passed⟩
    refine ⟨⟨stands, before, behind, split, fun x hx => ?_⟩, settled⟩
    -- What is before a case that is not the default is not the default either.
    have order := wellFormed.order
    rw [split] at order
    have ahead := (List.pairwise_append.mp order).2.2 x hx c List.mem_cons_self
    have own : x.isDefault = false := by
      rcases ahead with less | ⟨same, -⟩
      · rw [settled] at less
        exact absurd less (by simp)
      · exact same.trans settled
    simpa [own] using passed x hx
  · rintro ⟨⟨stands, before, behind, split, passed⟩, settled⟩
    exact ⟨⟨stands, settled⟩, before, behind, split, fun x hx => .inl (passed x hx)⟩

/-- The variants of the cases that are not the default are distinct from what a default case would
be. -/
theorem variant_name_ne {first : EnumCase} (hf : first ∈ f.cases) (settled : first.isDefault = false)
    (hc : c ∈ f.cases) (default_ : c.isDefault = true) :
    Name.camelCase first.name ≠ Name.camelCase c.name := by
  intro same
  have distinct := (scoped_of_apart Name.isCase_camelCase
    (fun n hn => by
      obtain ⟨x, hx, rfl⟩ := List.mem_map.mp hn
      exact wellFormed.identifier x hx) wellFormed.apart).distinct
  have names : first.name = c.name :=
    List.inj_on_of_nodup_map distinct (List.mem_map_of_mem hf) (List.mem_map_of_mem hc) same
  obtain rfl := List.inj_on_of_nodup_map distinct.of_map hf hc names
  rw [settled] at default_
  cases default_

theorem variants_values : ((variants f).map (·.value)).Nodup ∧
    ∀ v ∈ variants f, v.value.toNat < 2 ^ f.width := by
  constructor
  · have values : (variants f).map (·.value) =
        (distinctCases (Bits.mask ⟨0, f.width⟩) [] f.cases).map (·.2) := by
      simp only [variants, List.map_map, Function.comp_def]
    exact values ▸ distinctCases_values _ _ _
  · intro v hv
    obtain ⟨value, c, found, rfl⟩ := (mem_variants wellFormed).mp hv
    obtain ⟨hc, stands, -⟩ := standsFor_of_firstFor found
    exact wellFormed.value c hc value stands.1

/-- **All cases are admitted.** -/
theorem variantsFor_all : VariantsFor f (fun _ => true) (variants f) where
  each _ := mem_variants wellFormed
  only _ _ never := nomatch never
  distinct := (variants_values wellFormed).1
  fits := (variants_values wellFormed).2

/-- The first case of a value is no default one when default cases only repeat. -/
theorem firstFor_settled (repeats : DefaultsRepeat f)
    (found : firstFor f (fun _ => true) value = some c) : firstFor f isSettled value = some c := by
  obtain ⟨hc, stands, -⟩ := standsFor_of_firstFor found
  by_cases default_ : c.isDefault = true
  · obtain ⟨other, ho, own, stands⟩ := repeats c hc default_ value stands
    obtain ⟨first, found'⟩ := exists_firstFor isSettled ho stands (by simp [isSettled, own])
    obtain ⟨again, -⟩ := (firstFor_settled_iff wellFormed).mp found'
    obtain rfl := Option.some.inj (found.symm.trans again)
    exact found'
  · exact (firstFor_settled_iff wellFormed).mpr ⟨found, by simpa using default_⟩

/-- **The variants are those of the cases that are not the default exactly when default cases only
repeat.** -/
theorem variantsFor_settled_iff :
    VariantsFor f isSettled (variants f) ↔ DefaultsRepeat f := by
  constructor
  · intro settled c hc _ value stands
    obtain ⟨first, found⟩ := exists_firstFor (fun _ => true) hc stands rfl
    have variant := (mem_variants wellFormed).mpr ⟨value, first, found, rfl⟩
    obtain ⟨other, x, found, same⟩ := (settled.each _).mp variant
    obtain rfl : value = other := congrArg Variant.value same
    obtain ⟨hx, stands, own⟩ := standsFor_of_firstFor found
    exact ⟨x, hx, by simpa [isSettled] using own, stands⟩
  · intro repeats
    obtain ⟨distinct, fits⟩ := variants_values wellFormed
    refine ⟨fun v => ?_, fun c hc own v hv => ?_, distinct, fits⟩
    · rw [mem_variants wellFormed]
      constructor
      · rintro ⟨value, c, found, rfl⟩
        exact ⟨value, c, firstFor_settled wellFormed repeats found, rfl⟩
      · rintro ⟨value, c, found, rfl⟩
        exact ⟨value, c, ((firstFor_settled_iff wellFormed).mp found).1, rfl⟩
    · obtain ⟨value, first, found, rfl⟩ := (mem_variants wellFormed).mp hv
      obtain ⟨hf, -, own'⟩ := standsFor_of_firstFor (firstFor_settled wellFormed repeats found)
      rw [Variant.ofCase_name]
      exact variant_name_ne wellFormed hf (by simpa [isSettled] using own') hc
        (by simpa [isSettled] using own)

end Field

/-! ### Fields of a module -/

/-- **The variants of a field in the module of a peripheral** are those of all its cases, and those
of the cases that are not the default exactly when default cases only repeat. -/
theorem ofText_variants {text : String} {checked : Map.Checked} (h : Map.ofText text = .ok checked)
    {p : Peripheral} (hp : p ∈ checked.device.peripherals) {b : Bitfield}
    (hb : b ∈ (shapePeripheral p).bitfields) {f : Map.Field} (hf : f ∈ b.register.fields) :
    (∃ g ∈ (ModuleDecl.ofPeripheral p).groups, b.declaration ∈ g.types ∧
        FieldDecl.ofField f ∈ b.declaration.fields) ∧
      VariantsFor f (fun _ => true) (FieldDecl.ofField f).variants ∧
      (VariantsFor f isSettled (FieldDecl.ofField f).variants ↔ DefaultsRepeat f) := by
  obtain ⟨device, known, rfl⟩ := Map.exists_wellFormed h
  obtain ⟨table, sound, bitfields, -⟩ := shapePeripheral_types (known.peripherals p hp)
  have wellFormed := ((sound.wellFormed b (bitfields ▸ hb)).fields f hf).cases
  refine ⟨?_, variantsFor_all wellFormed, variantsFor_settled_iff wellFormed⟩
  obtain ⟨g, hg, -, ht⟩ := exists_group hb
  exact ⟨g, hg, ht, List.mem_map_of_mem hf⟩

/-- A document with a register of two fields, each with a default case: that of the first field has
no value, and that of the second one has a value that no other case has. -/
def defaults : String :=
  "<device><name>D</name><peripherals><peripheral><name>P</name><baseAddress>0</baseAddress>
  <registers><register><name>R</name><addressOffset>0</addressOffset><fields>
  <field><name>F</name><bitRange>[1:0]</bitRange><enumeratedValues>
  <enumeratedValue><name>On</name><value>1</value></enumeratedValue>
  <enumeratedValue><name>Else</name><isDefault>true</isDefault></enumeratedValue>
  </enumeratedValues></field><field><name>G</name><bitRange>[3:2]</bitRange><enumeratedValues>
  <enumeratedValue><name>On</name><value>1</value></enumeratedValue>
  <enumeratedValue><name>Else</name><value>2</value><isDefault>true</isDefault></enumeratedValue>
  </enumeratedValues></field></fields></register></registers></peripheral></peripherals></device>"

/-- A field of the document, with the value of its default case. -/
def switch (name : String) (start : Nat) (else_ : Option Word) (mask : Word) : Map.Field :=
  ⟨name, none, ⟨start, start + 2⟩, .readWrite, .modify, none, none,
    [⟨"On", none, some 1, 3, false⟩, ⟨"Else", none, else_, mask, true⟩]⟩

def switches : Map.Register :=
  { Map.Register.plain "R" 0 32 with fields := [switch "F" 0 none 0, switch "G" 2 (some 2) 3] }

def board : Peripheral where
  name := "P"
  description := none
  groupName := none
  baseAddress := 0
  addressRange := ⟨0, 4⟩
  interrupts := []
  registers := [switches]
  clusters := []

set_option maxRecDepth 4000 in
/-- **The map of the document.** -/
theorem ofText_defaults : ∃ checked, Map.ofText defaults = .ok checked ∧
    checked.device.peripherals = [board] ∧ checked.warnings = [] := by
  have written : defaults = String.ofList _ := rfl
  have read := Description.ofText_eq written
  refine Map.exists_of_parts ?_
  rw [Map.ofText, Map.resolvedOfText, read]
  cbv

theorem bitfields_board : ⟨"R", .u32, switches⟩ ∈ (shapePeripheral board).bitfields := by
  decide +kernel

/-- **The default case without a value** is no variant of the first field. -/
theorem ofText_variants_board : ∃ checked, Map.ofText defaults = .ok checked ∧
    board ∈ checked.device.peripherals ∧
      ⟨"R", .u32, switches⟩ ∈ (shapePeripheral board).bitfields ∧
        switch "F" 0 none 0 ∈ switches.fields ∧
          VariantsFor (switch "F" 0 none 0) isSettled
            (FieldDecl.ofField (switch "F" 0 none 0)).variants := by
  obtain ⟨checked, h, peripherals, -⟩ := ofText_defaults
  have hp : board ∈ checked.device.peripherals := peripherals ▸ List.mem_cons_self
  have hf : switch "F" 0 none 0 ∈ switches.fields := List.mem_cons_self
  refine ⟨checked, h, hp, bitfields_board, hf, ?_⟩
  refine (ofText_variants h hp bitfields_board hf).2.2.mpr ?_
  rintro c hc default_ value ⟨own, -⟩
  rcases List.mem_cons.mp hc with rfl | hc
  · cases default_
  · obtain rfl := List.mem_singleton.mp hc
    cases own

/-- **The default case with a value of its own** is a variant of the second field. -/
theorem not_variantsFor_settled : ∃ checked, Map.ofText defaults = .ok checked ∧
    board ∈ checked.device.peripherals ∧
      ⟨"R", .u32, switches⟩ ∈ (shapePeripheral board).bitfields ∧
        switch "G" 2 (some 2) 3 ∈ switches.fields ∧
          (FieldDecl.ofField (switch "G" 2 (some 2) 3)).variants =
            [⟨[], "On", 1⟩, ⟨[], "Else", 2⟩] ∧
          ¬VariantsFor (switch "G" 2 (some 2) 3) isSettled
            (FieldDecl.ofField (switch "G" 2 (some 2) 3)).variants := by
  obtain ⟨checked, h, peripherals, -⟩ := ofText_defaults
  have hp : board ∈ checked.device.peripherals := peripherals ▸ List.mem_cons_self
  have emitted : (FieldDecl.ofField (switch "G" 2 (some 2) 3)).variants =
      [⟨[], "On", 1⟩, ⟨[], "Else", 2⟩] := by
    cbv
  have hc : ⟨"Else", none, some 2, 3, true⟩ ∈ (switch "G" 2 (some 2) 3).cases :=
    List.mem_cons_of_mem _ List.mem_cons_self
  refine ⟨checked, h, hp, bitfields_board, List.mem_cons_of_mem _ List.mem_cons_self, emitted,
    fun settled => ?_⟩
  refine settled.only _ hc rfl ⟨[], "Else", 2⟩ ?_ (by cbv)
  rw [emitted]
  exact List.mem_cons_of_mem _ List.mem_cons_self

end ChipMap.Source
