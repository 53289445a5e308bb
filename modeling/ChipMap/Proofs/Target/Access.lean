import ChipMap.Proofs.Target.Navigable
import ChipMap.Proofs.Word.Bits
import ChipMap.Target.Access

/-!
# What a write leaves alone

A write reaches no word but that of its item, and none at all when it fails (`WritesInPlace`).  A
field is written through its register: **the field then reads as what was written, the other fields
of a register that can be read keep their values, and the order of two such writes does not matter**
(`FieldLaws`, `ofText_accessed`).

### What is load-bearing

What a write to a field does to the memory is a function of the memory alone (`afterField`): one
word is set to the old one with a range of bits replaced, cut to the size of the register.  In a
well-formed register the ranges of two fields share no bit and none reaches beyond the size, so the
cut is not seen through them.  A memory word itself may have bits above the size of the register.

A register that cannot be read is written from its reset value, so its other fields are set to what
they are after a reset.  The laws about other fields are therefore for registers that can be read.
-/

namespace ChipMap.Target

open Map (Device Peripheral Register Field)

/-! ### Cells -/

theorem lookup_setCell_of_ne {address other : Word} (h : other ≠ address) (value : Word)
    (cells : List (Word × Word)) :
    (setCell address value cells).lookup other = cells.lookup other := by
  have put (rest : List (Word × Word)) :
      ((address, value) :: rest).lookup other = rest.lookup other := by
    rw [List.lookup_cons, beq_eq_false_iff_ne.mpr h]
  induction cells with
  | nil => exact put []
  | cons cell rest ih =>
      unfold setCell
      split
      · exact put _
      · split
        · next same =>
          have past : (other == cell.1) = false := beq_eq_false_iff_ne.mpr (same ▸ h)
          rw [put, List.lookup_cons, past]
        · rw [List.lookup_cons, List.lookup_cons, ih]

/-- **A word that is put in a cell replaces the one put there before.** -/
theorem setCell_setCell (address first second : Word) (cells : List (Word × Word)) :
    setCell address second (setCell address first cells) = setCell address second cells := by
  induction cells with
  | nil => simp [setCell]
  | cons cell rest ih =>
      rw [setCell]
      split
      · next before => simp [setCell, before]
      · next before =>
        split
        · next same => simp [setCell, same]
        · next other => simp [setCell, before, other, ih]

namespace Memory

theorem get_set_of_ne (m : Memory) {address other : Word} (h : other ≠ address) (value : Word) :
    (m.set address value).get other = m.get other := by
  rw [get, set, lookup_setCell_of_ne h, get]

theorem set_set (m : Memory) (address first second : Word) :
    (m.set address first).set address second = m.set address second := by
  rw [set, set, setCell_setCell, set]

end Memory

/-! ### Writing -/

/-- A word is written unless its address is at fault. -/
theorem writeWord_eq (b : Bus) (r : Register) (address value : Word) :
    (writeWord b r address value).1 =
        (if address ∈ b.memory.faults then .error (.memory address) else .ok ()) ∧
      (writeWord b r address value).2.memory =
        if address ∈ b.memory.faults then b.memory
        else b.memory.set address (value &&& Bits.mask (registerBits r)) := by
  unfold writeWord Bus.write
  by_cases fault : address ∈ b.memory.faults
  · simp [fault]
  · simp [fault]

/-- The word that a write to a field starts from: what the register holds, or its reset value when
it cannot be read. -/
def wordBefore (m : Memory) (r : Register) (address : Word) : Word :=
  if r.access.isReadable then m.get address else r.resetValue

local instance : LawfulBEq Word := inferInstance

/-- The memory after a write to a field. -/
def afterField (m : Memory) (r : Register) (f : Field) (address value : Word) : Memory :=
  if f.access.isWritable = true ∧ address ∉ m.faults then
    m.set address
      (Bits.insert (wordBefore m r address) f.bits value &&& Bits.mask (registerBits r))
  else m

@[simp] theorem Memory.set_faults (m : Memory) (address value : Word) :
    (m.set address value).faults = m.faults := rfl

/-- **Two fields that share no bit are written in either order.** -/
theorem afterField_comm {m : Memory} {r : Register} {f g : Field} {address value other : Word}
    (readable : r.access.isReadable = true)
    (apart : ∀ i, ¬(f.bits.Contains i ∧ g.bits.Contains i)) :
    afterField (afterField m r f address value) r g address other =
      afterField (afterField m r g address other) r f address value := by
  by_cases fault : address ∈ m.faults
  · simp [afterField, fault]
  by_cases first : f.access.isWritable = true
  · by_cases second : g.access.isWritable = true
    · have both := Bits.insert_insert_of_disjoint (w := m.get address) (u := value) (v := other)
        (n := r.size) apart
      simp [afterField, wordBefore, fault, first, second, readable, Memory.get_set_self,
        Memory.set_set, registerBits, both]
    · simp [afterField, fault, second]
  · simp [afterField, fault, first]

/-- A field is read before it is written without a change of the memory. -/
theorem currentWord_eq (b : Bus) (r : Register) (address : Word) :
    (currentWord b r address).2.memory = b.memory ∧
      (currentWord b r address).1 =
        if r.access.isReadable = true ∧ address ∈ b.memory.faults then .error (.memory address)
        else .ok (wordBefore b.memory r address) := by
  unfold currentWord readWord Bus.read wordBefore
  by_cases readable : r.access.isReadable = true
  · by_cases fault : address ∈ b.memory.faults
    · simp [readable, fault]
    · simp [readable, fault]
  · simp [readable]

/-- **What a write to a field does to the memory**, and when it succeeds. -/
theorem writeItem_field (b : Bus) (r : Register) (f : Field) (address value : Word) :
    (writeItem b (.field r f address) value).2.memory = afterField b.memory r f address value ∧
      ((writeItem b (.field r f address) value).1 = .ok () ↔
        f.access.isWritable = true ∧ address ∉ b.memory.faults) := by
  obtain ⟨memory, outcome⟩ := currentWord_eq b r address
  unfold writeItem afterField
  dsimp only
  by_cases writable : f.access.isWritable = true
  · rw [if_pos writable]
    generalize currentWord b r address = current at memory outcome
    obtain ⟨result, after⟩ := current
    dsimp only at memory outcome
    obtain ⟨succeeds, changed⟩ :=
      writeWord_eq after r address (Bits.insert (wordBefore b.memory r address) f.bits value)
    rw [memory] at succeeds changed
    by_cases fault : address ∈ b.memory.faults
    · cases result with
      | error _ => simp [memory, fault]
      | ok current =>
          -- the register cannot be read, so the fault strikes at the write alone
          have unread : r.access.isReadable = false := by
            by_contra readable
            rw [if_pos ⟨by simpa using readable, fault⟩] at outcome
            cases outcome
          obtain rfl : current = wordBefore b.memory r address := by
            simpa [unread] using outcome
          simp [succeeds, changed, fault]
    · obtain rfl : result = .ok (wordBefore b.memory r address) := by
        simpa [fault] using outcome
      simp [succeeds, changed, fault, writable]
  · simp [writable]

/-! ### Reading -/

/-- What a field reads as depends on its bits alone. -/
theorem readItem_field (b : Bus) (r : Register) (f : Field) (address : Word) :
    (readItem b (.field r f address)).1 =
      if f.access.isReadable then
        if address ∈ b.memory.faults then .error (.memory address)
        else .ok (Bits.extract (b.memory.get address) f.bits)
      else .error (.denied .field f.name "readable") := by
  unfold readItem readWord Bus.read
  by_cases readable : f.access.isReadable = true
  · by_cases fault : address ∈ b.memory.faults
    · simp [readable, fault, Except.map]
    · simp [readable, fault, Except.map]
  · simp [readable]

/-! ### The laws -/

/-- **A write to an item stays at the address of the item**, and a failed one does nothing.  This
holds of every item, whether it has a register or not. -/
structure WritesInPlace (b : Bus) (item : Item) (value : Word) : Prop where
  elsewhere : ∀ address, address ≠ item.address →
    (writeItem b item value).2.memory.get address = b.memory.get address
  faults : (writeItem b item value).2.memory.faults = b.memory.faults
  failed : ∀ fault, (writeItem b item value).1 = .error fault →
    (writeItem b item value).2.memory = b.memory

/-- **The laws of a field** of a register at an address, on any bus. -/
structure FieldLaws (b : Bus) (r : Register) (f : Field) (address value : Word) : Prop where
  /-- After a write the field reads as what was written, as far as its bits go. -/
  reads : (writeItem b (.field r f address) value).1 = .ok () → f.access.isReadable = true →
    (readItem (writeItem b (.field r f address) value).2 (.field r f address)).1 =
      .ok (BitVec.ofNat 64 (value.toNat % 2 ^ f.width))
  /-- The other fields of a register that can be read keep their values. -/
  others : r.access.isReadable = true → ∀ g ∈ r.fields, g ≠ f →
    (readItem (writeItem b (.field r f address) value).2 (.field r g address)).1 =
      (readItem b (.field r g address)).1
  /-- The order of two writes to fields of a register that can be read does not matter. -/
  commute : r.access.isReadable = true → ∀ g ∈ r.fields, g ≠ f → ∀ other,
    (writeItem (writeItem b (.field r f address) value).2 (.field r g address) other).2.memory =
      (writeItem (writeItem b (.field r g address) other).2 (.field r f address) value).2.memory

/-- **No write reaches further than its item.** -/
theorem writesInPlace (b : Bus) (item : Item) (value : Word) : WritesInPlace b item value := by
  -- Everything but an accepted write leaves the memory as it was.
  have unchanged {outcome : Except AccessFault Unit × Bus} (kept : outcome.2.memory = b.memory)
      (same : writeItem b item value = outcome) : WritesInPlace b item value := by
    subst same
    exact ⟨fun _ _ => by rw [kept], by rw [kept], fun _ _ => kept⟩
  cases item with
  | peripheral p => exact unchanged rfl rfl
  | cluster c a => exact unchanged rfl rfl
  | register r a =>
      by_cases writable : r.access.isWritable = true
      · have word : writeItem b (.register r a) value = writeWord b r a value := by
          simp [writeItem, writable]
        obtain ⟨succeeds, changed⟩ := writeWord_eq b r a value
        rw [← word] at succeeds changed
        by_cases fault : a ∈ b.memory.faults
        · rw [if_pos fault] at changed
          exact unchanged changed rfl
        · rw [if_neg fault] at changed succeeds
          refine ⟨fun other h => ?_, by rw [changed]; rfl, fun _ h => ?_⟩
          · rw [changed]
            exact b.memory.get_set_of_ne h _
          · rw [succeeds] at h
            cases h
      · have refused : writeItem b (.register r a) value =
            (.error (.denied .register r.name "writable"), b) := by
          simp [writeItem, writable]
        exact unchanged rfl refused
  | field r f a =>
      obtain ⟨changed, succeeds⟩ := writeItem_field b r f a value
      unfold afterField at changed
      by_cases accepted : f.access.isWritable = true ∧ a ∉ b.memory.faults
      · rw [if_pos accepted] at changed
        refine ⟨fun other h => ?_, by rw [changed]; rfl, fun _ h => ?_⟩
        · rw [changed]
          exact b.memory.get_set_of_ne h _
        · rw [succeeds.mpr accepted] at h
          cases h
      · rw [if_neg accepted] at changed
        exact unchanged changed rfl

theorem disjoint_of_ne {r : Register} (wellFormed : r.WellFormed) {f g : Field}
    (hf : f ∈ r.fields) (hg : g ∈ r.fields) (h : g ≠ f) (i : Nat) :
    ¬(f.bits.Contains i ∧ g.bits.Contains i) := by
  have : Std.Symm fun f g : Field => ∀ i, ¬(f.bits.Contains i ∧ g.bits.Contains i) :=
    ⟨fun _ _ apart i both => apart i both.symm⟩
  exact wellFormed.disjoint.forall hf hg h.symm i

/-- **The fields of a well-formed register keep their laws.** -/
theorem fieldLaws {r : Register} (wellFormed : r.WellFormed) {f : Field} (hf : f ∈ r.fields)
    (b : Bus) (address value : Word) : FieldLaws b r f address value where
  reads := by
    intro succeeded readable
    obtain ⟨changed, succeeds⟩ := writeItem_field b r f address value
    obtain ⟨writable, sound⟩ := succeeds.mp succeeded
    have inside := (wellFormed.fields f hf).inside
    have word := Bits.extract_insert (w := wordBefore b.memory r address) (v := value) inside
      wellFormed.size.2
    rw [readItem_field, changed]
    simp [afterField, writable, sound, readable, Memory.get_set_self, registerBits, word,
      Field.width]
  others := by
    intro readable g hg other
    obtain ⟨changed, -⟩ := writeItem_field b r f address value
    have inside := (wellFormed.fields g hg).inside
    have word := Bits.extract_insert_of_disjoint (w := b.memory.get address) (v := value) inside
      wellFormed.size.2 (disjoint_of_ne wellFormed hf hg other)
    rw [readItem_field, readItem_field, changed]
    by_cases accepted : f.access.isWritable = true ∧ address ∉ b.memory.faults
    · simp [afterField, accepted, wordBefore, readable, Memory.get_set_self, registerBits, word]
    · rw [afterField, if_neg accepted]
  commute := by
    intro readable g hg other value'
    rw [(writeItem_field _ r g address value').1, (writeItem_field b r f address value).1,
      (writeItem_field _ r f address value).1, (writeItem_field b r g address value').1]
    exact afterField_comm readable (disjoint_of_ne wellFormed hf hg other)

/-- **Access to the items of the map of a document keeps to its laws.** -/
theorem ofText_accessed {text : String} {checked : Map.Checked} (h : Map.ofText text = .ok checked)
    {p : Peripheral} (hp : p ∈ checked.device.peripherals) {segments : List Segment} {item : Item}
    {n : Nat} (leads : Leads (.peripheral p) segments item n) (b : Bus) (value : Word) :
    WritesInPlace b item value ∧
      ∀ r f address, item = .field r f address → FieldLaws b r f address value := by
  refine ⟨writesInPlace b item value, ?_⟩
  rintro r f address rfl
  obtain ⟨device, known, rfl⟩ := Map.exists_wellFormed h
  have level : (Item.peripheral p).WellFormed := (known.peripherals p hp).level
  obtain ⟨wellFormed, hf⟩ := leads.wellFormed level
  exact fieldLaws wellFormed hf b address value

/-- In the sample, a value that is too wide for the lower field loses its upper bits. -/
theorem ofText_accessed_nested : ∃ checked, Map.ofText nested = .ok checked ∧
    nest ∈ checked.device.peripherals ∧
      (readItem (writeItem ⟨⟨[], []⟩, []⟩ (.field (halves low high) low 0x4000001C) 0x1F).2
        (.field (halves low high) low 0x4000001C)).1 = .ok 0xF := by
  obtain ⟨checked, h, peripherals, -⟩ := ofText_nested
  have p : nest ∈ checked.device.peripherals := by simp [peripherals]
  have laws := (ofText_accessed h p leads_low ⟨⟨[], []⟩, []⟩ 0x1F).2 _ _ _ rfl
  exact ⟨checked, h, p, laws.reads rfl rfl⟩

end ChipMap.Target
