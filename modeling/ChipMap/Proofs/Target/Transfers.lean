import ChipMap.Proofs.Target.Access

/-!
# Which accesses of the memory are tried

A call on an item tries at most one read and then at most one write, both at the address of the item
and as wide as its register; a path that leads to no item tries none (`Event.next_trace`).

A register and its fields have accesses of their own.  Reading an item looks at the access of the
item only, writing a field looks at the access of the register for the read before the write only.
So **the accesses that are tried are those that the registers allow exactly when no field on a path
allows what its register forbids** (`transfers_allowed_iff`).  A document may describe a field that
can be read in a register that cannot; reading it reads the register (`read_of_writeOnly`).

### What is load-bearing

`Issues` says once what a call can try, with what was looked at before: an update whose read fails
tries no write.  What a call tries does not depend on what the memory holds, so the memory may
become another one between two calls (`Event.change`).

One direction is an induction over a run (`forall_mem_history`).  The other one needs a run for
every field that allows too much: a read of the field, or a write to it on an empty memory, where
nothing is at fault (`exists_write_field`).
-/

namespace ChipMap.Target

open Map (Device Peripheral Register Field)

/-! ### One call -/

/-- **What a call on an item can try**, with the accesses that were looked at. -/
inductive Item.Issues : Item → Action → List Transfer → Prop
  | nothing {item : Item} {action : Action} : Issues item action []
  | registerRead {r : Register} {a : Word} :
    r.access.isReadable = true → Issues (.register r a) .read [.read a r.size]
  | fieldRead {r : Register} {f : Field} {a : Word} :
    f.access.isReadable = true → Issues (.field r f a) .read [.read a r.size]
  | registerWrite {r : Register} {a u v : Word} :
    r.access.isWritable = true → Issues (.register r a) (.write v) [.write a u r.size]
  | fieldWrite {r : Register} {f : Field} {a u v : Word} :
    f.access.isWritable = true → Issues (.field r f a) (.write v) [.write a u r.size]
  /-- The read before the write fails. -/
  | updateFailed {r : Register} {f : Field} {a v : Word} :
    f.access.isWritable = true → r.access.isReadable = true →
      Issues (.field r f a) (.write v) [.read a r.size]
  | update {r : Register} {f : Field} {a u v : Word} :
    f.access.isWritable = true → r.access.isReadable = true →
      Issues (.field r f a) (.write v) [.read a r.size, .write a u r.size]

theorem readWord_trace (b : Bus) (r : Register) (a : Word) :
    (readWord b r a).2.trace = b.trace ++ [.read a r.size] := by
  unfold readWord Bus.read
  split <;> grind

theorem writeWord_trace (b : Bus) (r : Register) (a value : Word) :
    (writeWord b r a value).2.trace =
      b.trace ++ [.write a (value &&& Bits.mask (registerBits r)) r.size] := by
  unfold writeWord Bus.write
  split <;> grind

/-- A register that cannot be read is not read before a write. -/
theorem currentWord_trace (b : Bus) (r : Register) (a : Word) :
    (currentWord b r a).2.trace =
      b.trace ++ if r.access.isReadable then [.read a r.size] else [] := by
  unfold currentWord
  split
  · exact readWord_trace b r a
  · exact (List.append_nil _).symm

theorem readItem_issues (b : Bus) (item : Item) :
    ∃ ts, (readItem b item).2.trace = b.trace ++ ts ∧ item.Issues .read ts := by
  have quiet : b.trace = b.trace ++ [] := (List.append_nil _).symm
  cases item with
  | peripheral p => exact ⟨[], quiet, .nothing⟩
  | cluster c a => exact ⟨[], quiet, .nothing⟩
  | register r a =>
      unfold readItem
      dsimp only
      split
      · next readable => exact ⟨_, readWord_trace b r a, .registerRead readable⟩
      · exact ⟨[], quiet, .nothing⟩
  | field r f a =>
      unfold readItem
      dsimp only
      split
      · next readable => exact ⟨_, readWord_trace b r a, .fieldRead readable⟩
      · exact ⟨[], quiet, .nothing⟩

theorem writeItem_issues (b : Bus) (item : Item) (value : Word) :
    ∃ ts, (writeItem b item value).2.trace = b.trace ++ ts ∧ item.Issues (.write value) ts := by
  have quiet : b.trace = b.trace ++ [] := (List.append_nil _).symm
  cases item with
  | peripheral p => exact ⟨[], quiet, .nothing⟩
  | cluster c a => exact ⟨[], quiet, .nothing⟩
  | register r a =>
      unfold writeItem
      dsimp only
      split
      · next writable => exact ⟨_, writeWord_trace b r a value, .registerWrite writable⟩
      · exact ⟨[], quiet, .nothing⟩
  | field r f a =>
      unfold writeItem
      dsimp only
      split
      · next writable =>
        -- The register is read first if it can be, and written only when that did not fail.
        have before := currentWord_trace b r a
        generalize currentWord b r a = current at before ⊢
        obtain ⟨outcome, after⟩ := current
        by_cases readable : r.access.isReadable = true
        · rw [if_pos readable] at before
          cases outcome with
          | error fault => exact ⟨_, before, .updateFailed writable readable⟩
          | ok current =>
              have whole := writeWord_trace after r a (Bits.insert current f.bits value)
              rw [before, List.append_assoc] at whole
              exact ⟨_, whole, .update writable readable⟩
        · rw [if_neg readable, List.append_nil] at before
          cases outcome with
          | error fault => exact ⟨[], before.trans quiet, .nothing⟩
          | ok current =>
              have whole := writeWord_trace after r a (Bits.insert current f.bits value)
              rw [before] at whole
              exact ⟨_, whole, .fieldWrite writable⟩
      · exact ⟨[], quiet, .nothing⟩

/-! ### A run -/

/-- What happens to a bus: a call on the item of a path, or a change of the memory by something
else. -/
inductive Event where
  | call (path : String) (action : Action)
  | change (memory : Memory)
deriving Repr, Inhabited

/-- The bus after an event. -/
def Event.next (d : Device) (b : Bus) : Event → Bus
  | call path action => (perform d b path action).2
  | change memory => { b with memory }

/-- The accesses that an event tries, whether they succeed or not. -/
def Event.transfers (d : Device) (b : Bus) (e : Event) : List Transfer :=
  (e.next d b).trace.drop b.trace.length

/-- **A run of events**, each with the accesses that it tries. -/
def history (d : Device) : Bus → List Event → List (Event × List Transfer)
  | _, [] => []
  | b, e :: rest => (e, e.transfers d b) :: history d (e.next d b) rest

/-- The bus after a run, with all that was tried in its trace. -/
def runEvents (d : Device) (b : Bus) (events : List Event) : Bus :=
  events.foldl (fun b e => e.next d b) b

/-- The item that an event is about, if its path leads to one. -/
def Event.item? (d : Device) : Event → Option Item
  | call path _ => (find d path).toOption
  | change _ => none

/-- **One event**: it tries what the call on its item can try, and nothing without an item. -/
theorem Event.next_trace (d : Device) (b : Bus) (e : Event) :
    (e.next d b).trace = b.trace ++ e.transfers d b ∧
      (e.transfers d b = [] ∨
        ∃ item action, e.item? d = some item ∧ item.Issues action (e.transfers d b)) := by
  have grown {ts : List Transfer} (h : (e.next d b).trace = b.trace ++ ts) :
      e.transfers d b = ts := by
    rw [transfers, h, List.drop_left]
  have quiet (h : (e.next d b).trace = b.trace) :
      (e.next d b).trace = b.trace ++ e.transfers d b ∧
        (e.transfers d b = [] ∨
          ∃ item action, e.item? d = some item ∧ item.Issues action (e.transfers d b)) := by
    have none := grown (h.trans (List.append_nil _).symm)
    exact ⟨by rw [none, h, List.append_nil], .inl none⟩
  cases e with
  | change memory => exact quiet rfl
  | call path action =>
      cases found : find d path with
      | error fault =>
          refine quiet ?_
          rw [next, perform, found]
      | ok item =>
          have about : (Event.call path action).item? d = some item := by
            rw [item?, found]
            rfl
          have issued (h : ∃ ts, ((Event.call path action).next d b).trace = b.trace ++ ts ∧
              item.Issues action ts) :
              ((Event.call path action).next d b).trace =
                  b.trace ++ (Event.call path action).transfers d b ∧
                ((Event.call path action).transfers d b = [] ∨
                  ∃ item' action', (Event.call path action).item? d = some item' ∧
                    item'.Issues action' ((Event.call path action).transfers d b)) := by
            obtain ⟨ts, trace, issues⟩ := h
            rw [grown trace]
            exact ⟨trace, .inr ⟨item, action, about, issues⟩⟩
          cases action with
          | find =>
              refine quiet ?_
              rw [next, perform, found]
          | read =>
              refine issued ?_
              rw [next, perform, found]
              exact readItem_issues b item
          | write value =>
              refine issued ?_
              rw [next, perform, found]
              exact writeItem_issues b item value

/-- The record of a run tells the trace apart into its events. -/
theorem runEvents_trace (d : Device) (b : Bus) (events : List Event) :
    (runEvents d b events).trace = b.trace ++ (history d b events).flatMap Prod.snd := by
  induction events generalizing b with
  | nil => exact (List.append_nil _).symm
  | cons e rest ih =>
      rw [history, List.flatMap_cons, ← List.append_assoc, ← (e.next_trace d b).1]
      exact ih (e.next d b)

/-- **What holds of every event on every bus holds of every event of a run.** -/
theorem forall_mem_history {d : Device} {P : Event → List Transfer → Prop}
    (each : ∀ b e, P e (e.transfers d b)) (b : Bus) (events : List Event) :
    ∀ x ∈ history d b events, P x.1 x.2 := by
  induction events generalizing b with
  | nil => exact fun _ h => nomatch h
  | cons e rest ih => exact List.forall_mem_cons.mpr ⟨each b e, ih (e.next d b)⟩

/-! ### What registers allow -/

/-- The register of an item: its own, or the one that a field is in. -/
def Item.register? : Item → Option Register
  | register r _ => some r
  | field r _ _ => some r
  | _ => none

/-- An access of the memory that the access of a register allows. -/
def Transfer.AllowedBy (r : Register) : Transfer → Prop
  | read _ _ => r.access.isReadable = true
  | write _ _ _ => r.access.isWritable = true

/-- At most one read and then at most one write, at an address and as wide as a register. -/
def Brief (r : Register) (address : Word) (ts : List Transfer) : Prop :=
  ∃ reads writes, ts = reads ++ writes ∧ (reads = [] ∨ reads = [.read address r.size]) ∧
    (writes = [] ∨ ∃ value, writes = [.write address value r.size])

/-- **An item that allows no more than its register**: a field may narrow the access of its
register, not widen it. -/
def Item.Confined : Item → Prop
  | field r f _ => (f.access.isReadable = true → r.access.isReadable = true) ∧
      (f.access.isWritable = true → r.access.isWritable = true)
  | _ => True

/-- A call tries accesses only on an item with a register, and few of them. -/
theorem Item.Issues.brief {item : Item} {action : Action} {ts : List Transfer}
    (h : item.Issues action ts) :
    ts = [] ∨ ∃ r, item.register? = some r ∧ Brief r item.address ts := by
  have one {r : Register} {a : Word} : Brief r a [.read a r.size] :=
    ⟨_, [], rfl, .inr rfl, .inl rfl⟩
  have write {r : Register} {a u : Word} : Brief r a [.write a u r.size] :=
    ⟨[], _, rfl, .inl rfl, .inr ⟨u, rfl⟩⟩
  cases h with
  | nothing => exact .inl rfl
  | registerRead => exact .inr ⟨_, rfl, one⟩
  | fieldRead => exact .inr ⟨_, rfl, one⟩
  | registerWrite => exact .inr ⟨_, rfl, write⟩
  | fieldWrite => exact .inr ⟨_, rfl, write⟩
  | updateFailed => exact .inr ⟨_, rfl, one⟩
  | @update r _ a u => exact .inr ⟨_, rfl, [.read a r.size], [.write a u r.size], rfl, .inr rfl,
      .inr ⟨u, rfl⟩⟩

/-- **A call on a confined item tries what the register allows.** -/
theorem Item.Issues.allowed {item : Item} {action : Action} {ts : List Transfer} {r : Register}
    (h : item.Issues action ts) (confined : item.Confined) (own : item.register? = some r) :
    ∀ t ∈ ts, t.AllowedBy r := by
  cases h with
  | nothing => exact List.forall_mem_nil _
  | registerRead readable =>
      obtain rfl := Option.some.inj own
      exact List.forall_mem_singleton.mpr readable
  | fieldRead readable =>
      obtain rfl := Option.some.inj own
      exact List.forall_mem_singleton.mpr (confined.1 readable)
  | registerWrite writable =>
      obtain rfl := Option.some.inj own
      exact List.forall_mem_singleton.mpr writable
  | fieldWrite writable =>
      obtain rfl := Option.some.inj own
      exact List.forall_mem_singleton.mpr (confined.2 writable)
  | updateFailed _ readable =>
      obtain rfl := Option.some.inj own
      exact List.forall_mem_singleton.mpr readable
  | update writable readable =>
      obtain rfl := Option.some.inj own
      exact List.forall_mem_cons.mpr ⟨readable, List.forall_mem_singleton.mpr (confined.2 writable)⟩

/-- **The accesses of a run that registers allow.**  Events without an item try nothing. -/
def Allowed (d : Device) (b : Bus) (events : List Event) : Prop :=
  ∀ x ∈ history d b events, ∀ item r, x.1.item? d = some item → item.register? = some r →
    ∀ t ∈ x.2, t.AllowedBy r

/-- On an empty memory a write to a field is tried. -/
theorem exists_write_field {f : Field} (writable : f.access.isWritable = true) (r : Register)
    (a value : Word) :
    ∃ u, Transfer.write a u r.size ∈ (writeItem ⟨⟨[], []⟩, []⟩ (.field r f a) value).2.trace := by
  by_cases readable : r.access.isReadable = true
  · simp [writeItem, writable, currentWord, readable, readWord, Bus.read, writeWord_trace]
  · simp [writeItem, writable, currentWord, readable, writeWord_trace]

/-- When all accesses are allowed, no field allows more than its register. -/
theorem confined_of_allowed {d : Device} {path : String} {item : Item}
    (found : find d path = .ok item) (allowed : ∀ b events, Allowed d b events) : item.Confined := by
  cases item with
  | peripheral p => trivial
  | cluster c a => trivial
  | register r a => trivial
  | field r f a =>
      -- One call on an empty memory, in which no access fails.
      have one (action : Action) {t : Transfer}
          (tried : t ∈ (perform d ⟨⟨[], []⟩, []⟩ path action).2.trace) : t.AllowedBy r := by
        refine allowed ⟨⟨[], []⟩, []⟩ [.call path action] _ List.mem_cons_self (.field r f a) r ?_
          rfl t tried
        rw [Event.item?, found]
        rfl
      constructor
      · intro readable
        refine one .read (t := .read a r.size) ?_
        rw [perform, found]
        simp [readItem, readable, readWord_trace]
      · intro writable
        obtain ⟨u, tried⟩ := exists_write_field writable r a 0
        refine one (.write 0) (t := .write a u r.size) ?_
        rw [perform, found]
        exact tried

/-- **The accesses of a run**: each call tries at most one read and then at most one write, at the
address of its item and as wide as its register.  All of them are allowed by the registers, whatever
the memories are, exactly when no field that a path leads to allows more than its register. -/
theorem transfers_allowed_iff (d : Device) :
    (∀ b events, (runEvents d b events).trace = b.trace ++ (history d b events).flatMap Prod.snd ∧
      ∀ x ∈ history d b events, x.2 = [] ∨ ∃ item r, x.1.item? d = some item ∧
        item.register? = some r ∧ Brief r item.address x.2) ∧
    ((∀ b events, Allowed d b events) ↔ ∀ path item, find d path = .ok item → item.Confined) := by
  refine ⟨fun b events => ⟨runEvents_trace d b events, ?_⟩, fun allowed path item found => ?_,
    fun confined b events => ?_⟩
  · refine forall_mem_history (P := fun e ts => ts = [] ∨ ∃ item r, e.item? d = some item ∧
      item.register? = some r ∧ Brief r item.address ts) (fun b e => ?_) b events
    rcases (e.next_trace d b).2 with none | ⟨item, action, about, issues⟩
    · exact .inl none
    · exact issues.brief.imp id fun ⟨r, own, brief⟩ => ⟨item, r, about, own, brief⟩
  · exact confined_of_allowed found allowed
  · refine forall_mem_history (P := fun e ts => ∀ item r, e.item? d = some item →
      item.register? = some r → ∀ t ∈ ts, t.AllowedBy r) (fun b e item r about own => ?_) b events
    rcases (e.next_trace d b).2 with none | ⟨item', action, about', issues⟩
    · rw [none]
      exact List.forall_mem_nil _
    · -- The item of the event is found by its path, so it is confined.
      obtain rfl := Option.some.inj (about'.symm.trans about)
      refine issues.allowed ?_ own
      cases e with
      | change _ => cases about
      | call path _ =>
          refine confined path item' ?_
          rw [Event.item?] at about
          cases found : find d path with
          | error _ =>
              rw [found] at about
              cases about
          | ok _ =>
              rw [found] at about
              exact congrArg Except.ok (Option.some.inj about)

/-! ### A field that can be read in a register that cannot -/

/-- A document with a register that may only be written and with a field of it that may be read. -/
def keyed : String :=
  "<device><name>D</name><peripherals><peripheral><name>P</name><baseAddress>0</baseAddress>
  <registers><register><name>KEY</name><addressOffset>4</addressOffset><access>write-only</access>
  <fields><field><name>F</name><bitRange>[3:0]</bitRange><access>read-write</access></field></fields>
  </register></registers></peripheral></peripherals></device>"

def keyField : Field := ⟨"F", none, ⟨0, 4⟩, .readWrite, .modify, none, none, []⟩

def keyRegister : Register :=
  { Map.Register.plain "KEY" 4 32 with access := .writeOnly, fields := [keyField] }

def keyPeripheral : Peripheral where
  name := "P"
  description := none
  groupName := none
  baseAddress := 0
  addressRange := ⟨4, 8⟩
  interrupts := []
  registers := [keyRegister]
  clusters := []

set_option maxRecDepth 4000 in
theorem ofText_keyed : ∃ checked, Map.ofText keyed = .ok checked ∧
    checked.device.peripherals = [keyPeripheral] ∧ checked.warnings = [] := by
  have written : keyed = String.ofList _ := rfl
  have read := Description.ofText_eq written
  refine Map.exists_of_parts ?_
  rw [Map.ofText, Map.resolvedOfText, read]
  cbv

theorem find_keyField {d : Device} (h : d.peripherals = [keyPeripheral]) :
    find d "P.KEY.F" = .ok (.field keyRegister keyField 4) := by
  obtain ⟨name, vendor, version, description, width, unit, peripherals⟩ := d
  obtain rfl : peripherals = [keyPeripheral] := h
  cbv

/-- **A register that may only be written is read**: by reading its field. -/
theorem read_of_writeOnly : ∃ checked, Map.ofText keyed = .ok checked ∧
    find checked.device "P.KEY.F" = .ok (.field keyRegister keyField 4) ∧
    keyRegister.access.isReadable = false ∧
    history checked.device ⟨⟨[], []⟩, []⟩ [.call "P.KEY.F" .read] =
      [(.call "P.KEY.F" .read, [.read 4 32])] ∧
    ¬Allowed checked.device ⟨⟨[], []⟩, []⟩ [.call "P.KEY.F" .read] := by
  obtain ⟨checked, h, peripherals, -⟩ := ofText_keyed
  have found := find_keyField peripherals
  have run : history checked.device ⟨⟨[], []⟩, []⟩ [.call "P.KEY.F" .read] =
      [(.call "P.KEY.F" .read, [.read 4 32])] := by
    rw [history, history, Event.transfers, Event.next, perform, found]
    rfl
  refine ⟨checked, h, found, rfl, run, fun allowed => ?_⟩
  have about : (Event.call "P.KEY.F" .read).item? checked.device =
      some (.field keyRegister keyField 4) := by
    rw [Event.item?, found]
    rfl
  rw [Allowed, run] at allowed
  exact nomatch allowed _ List.mem_cons_self _ keyRegister about rfl _ List.mem_cons_self

end ChipMap.Target
