import ChipMap.Proofs.Description.Encodings
import ChipMap.Proofs.Description.Places
import ChipMap.Proofs.Description.Unknown

/-!
# Where a fault is

A fault of an element says what is wrong with a child of it (`AtFault`): the child is missing or
blank, its text is no value, or its value does not fit that of another child.  **The path of the
fault leads to the element and names the child, and its place is that of the child, or of the
element when the child is missing** (`ofElement_marks`).

### What is load-bearing

A path grows where a reader hands an element on, far from where the elements were numbered, so the
invariant of all readers is that an element is where its path leads (`Scope.At`).  What is wrong is
known from what was read before: a child is missing when it was looked for and not found.  A fault
is followed through a sequence of readings with the values of those that succeeded (`Blames.bind`).

There is one lemma for each reader, in the order in which the readers are defined, and each of them
is a walk through the definition: whatever is read is read by a reader whose lemma is known, and an
element that is handed on is where the longer path leads.  Only the readers of nodes inside nodes
need more, an induction over the node (`readNode_blames`).
-/

namespace ChipMap.Description

open Markup (Element)

/-! ### Faults of children -/

/-- The child of an encoding that is read last.  It is the one that a fault of the whole range
names. -/
def Encoding.last : Encoding → String
  | brackets => "bitRange"
  | ends => "msb"
  | extent => "bitWidth"

/-- **What is wrong with a child** that a fault is about.  Each case ties the fault to the document:
to the text that was refused, or to the values that do not fit each other. -/
inductive AtFault (s : Scope) : String → DocumentFault → Prop
  /-- It is missing. -/
  | absent {name : String} : s.element.child? name = none →
    AtFault s name (.missing (s.locationOf name) name)
  /-- It is blank. -/
  | blank {name : String} {child : Element} : s.element.child? name = some child →
    Text.trim child.text = "" → AtFault s name (.missing (s.locationOf name) name)
  /-- Its text is no value, and is quoted. -/
  | malformed {name : String} {child : Element} {cause : Malformed} :
    s.element.child? name = some child → cause.text = Text.trim child.text →
      AtFault s name (.invalid (s.locationOf name) cause)
  /-- It is the last part of a range that is written backwards. -/
  | backwards {e : Encoding} {r : BitRange} : e.Gives s r → r.msb.toNat < r.lsb.toNat →
    AtFault s e.last (.invalid (s.locationOf e.last) ⟨.bitRange, renderBitRange r.msb r.lsb⟩)
  /-- It is a width that leaves no bit or too many, or would be if it were written. -/
  | unfit {offset width : Word} : s.Holds "bitOffset" offset → Encoding.Width s width →
    width.toNat = 0 ∨ Word.count ≤ offset.toNat + width.toNat →
      AtFault s "bitWidth" (.invalid (s.locationOf "bitWidth") ⟨.bitWidth, toString width.toNat⟩)
  /-- It is a list of indices that is not as long as the array. -/
  | miscounted {count : Word} {texts : List String} : s.Holds "dim" count →
    s.value? "dimIndex" Numeral.readIndices = .ok (some texts) → texts.length ≠ count.toNat →
      AtFault s "dimIndex" (.indexCount (s.locationOf "dimIndex") count texts.length)

/-- The location of a fault is that of the child which it is about. -/
theorem AtFault.location? {s : Scope} {name : String} {fault : DocumentFault}
    (h : AtFault s name fault) : fault.location? = some (s.locationOf name) := by
  cases h <;> rfl

/-- **A reading blames children that are at fault**, of elements that are where their paths lead.
Nothing is said of a reading that succeeds. -/
def Blames (root : Element) {α : Type} (c : Except DocumentFault α) : Prop :=
  ∀ fault, c = .error fault → ∃ s name, Scope.At root s ∧ name ∈ valueNames ∧ AtFault s name fault

namespace Blames

variable {root : Element} {α β : Type}

theorem ok {a : α} : Blames root (.ok a) := fun _ none_ => nomatch none_

theorem bind {c : Except DocumentFault α} {f : α → Except DocumentFault β} (h : Blames root c)
    (rest : ∀ a, c = .ok a → Blames root (f a)) : Blames root (c >>= f) := by
  cases c with
  | error fault => exact fun _ failed => h _ (congrArg Except.error (Except.error.inj failed))
  | ok a => exact rest a rfl

theorem mapM {xs : List α} {f : α → Except DocumentFault β} (each : ∀ x ∈ xs, Blames root (f x)) :
    Blames root (xs.mapM f) := by
  intro fault failed
  obtain ⟨x, hx, failed⟩ := exists_of_mapM_eq_error failed
  exact each x hx fault failed

end Blames

/-- The names of the elements whose text is read cut no path. -/
theorem isIdentifier_of_value : ∀ name ∈ valueNames, Name.IsIdentifier name := by decide +kernel

/-! ### Readers of texts -/

/-- **A reader quotes the texts that it refuses**, so a fault shows what stands in the document. -/
def Quotes {α : Type} (read : String → Except Malformed α) : Prop :=
  ∀ text cause, read text = .error cause → cause.text = text

/-- **The reader of every kind of value quotes**: a text in which nothing is found is refused as it
is.  The readers of words, patterns, ranges, truth values and fixed literals are instances. -/
theorem quotes_read {α : Type} {kind : ValueKind} {find : String → Option α} :
    Quotes (kind.read find) := by
  intro text cause refused
  rcases kind.read_cases find text with ⟨value, done⟩ | failed
  · cases done.symm.trans refused
  · cases failed.symm.trans refused
    rfl

/-! ### Attributes -/

namespace Scope.At

variable {root : Element} {s : Scope} (h : s.At root) {α : Type} {name : String}

include h

theorem missing (value : name ∈ valueNames) (absent : s.element.child? name = none) :
    Blames root (s.missing name : Except DocumentFault α) := by
  rintro _ ⟨⟩
  exact ⟨s, name, h, value, .absent absent⟩

theorem required (value : name ∈ valueNames) : Blames root (s.required name) := by
  unfold Scope.required Scope.text?
  cases found : s.element.child? name with
  | none => exact h.missing value found
  | some child =>
      dsimp only [Option.map_some]
      split
      · next blank =>
        rintro _ ⟨⟩
        exact ⟨s, name, h, value, .blank found (String.isEmpty_iff.mp blank)⟩
      · exact .ok

theorem value? (value : name ∈ valueNames) {read : String → Except Malformed α}
    (quotes : Quotes read) : Blames root (s.value? name read) := by
  unfold Scope.value? Scope.text?
  cases found : s.element.child? name with
  | none => exact .ok
  | some child =>
      dsimp only [Option.map_some]
      cases refused : read (Text.trim child.text) with
      | ok _ => exact .ok
      | error cause =>
          rintro _ ⟨⟩
          exact ⟨s, name, h, value, .malformed found (quotes _ _ refused)⟩

theorem word? (value : name ∈ valueNames) : Blames root (s.word? name) :=
  h.value? value quotes_read

theorem requiredValue (value : name ∈ valueNames) {read : String → Except Malformed α}
    (quotes : Quotes read) : Blames root (s.requiredValue name read) := by
  refine (h.value? value quotes).bind fun found absent => ?_
  cases found with
  | none => exact h.missing value (value?_eq_none_iff.mp absent)
  | some _ => exact .ok

theorem requiredWord (value : name ∈ valueNames) : Blames root (s.requiredWord name) :=
  h.requiredValue value quotes_read

theorem derivableWord (value : name ∈ valueNames) (derivedFrom : Option String) :
    Blames root (s.derivableWord derivedFrom name) := by
  unfold Scope.derivableWord
  split
  · exact h.word? value
  · exact (h.requiredWord value).bind fun _ _ => .ok

/-- The first child of a name is where the name leads. -/
theorem child {e : Element} (found : s.element.child? name = some e)
    (named : Name.IsIdentifier name) : (s.inner e (.only name)).At root :=
  h.inner (.only name) found named

/-- Elements are read one by one, and each is where its number leads. -/
theorem readEach {read : Scope → Except DocumentFault α} {step : String} {es : List Element}
    (counts : counted s.element step = es) (named : Name.IsIdentifier step)
    (each : ∀ t : Scope, t.element ∈ es → t.At root → Blames root (read t)) :
    Blames root (s.readEach step read es) := by
  subst counts
  refine Blames.mapM fun p hp => each _ (List.fst_mem_of_mem_zipIdx hp) ?_
  exact h.inner (.nth step p.2) (List.mk_mem_zipIdx_iff_getElem?.mp hp) named

/-! ### Groups of attributes -/

theorem readProperties : Blames root (readProperties s) := by
  refine (h.word? (by decide)).bind fun size _ => ?_
  refine (h.value? (by decide) quotes_read).bind fun access _ => ?_
  refine (h.value? (by decide) quotes_read).bind fun protection _ => ?_
  refine (h.word? (by decide)).bind fun resetValue _ => ?_
  exact (h.word? (by decide)).bind fun resetMask _ => .ok

theorem readDimension : Blames root (readDimension s) := by
  refine (h.word? (by decide)).bind fun dim counted => ?_
  cases dim with
  | none => exact .ok
  | some count =>
      refine (h.requiredWord (by decide)).bind fun increment _ => ?_
      refine (h.value? (by decide) quotes_read).bind fun indices listed => ?_
      cases indices with
      | none => exact .ok
      | some texts =>
          dsimp only
          split
          · next other =>
            rintro _ ⟨⟩
            exact ⟨s, _, h, by decide, .miscounted (word?_eq_some_iff.mp counted) listed other⟩
          · exact .ok

theorem readWriteConstraint : Blames root (readWriteConstraint s) := by
  unfold Description.readWriteConstraint
  split
  · exact .ok
  · next constraint found =>
    have inside := h.child found (by decide)
    refine (inside.value? (by decide) quotes_read).bind fun asRead _ => ?_
    cases asRead with
    | some _ => exact .ok
    | none =>
        refine (inside.value? (by decide) quotes_read).bind fun enumerated _ => ?_
        cases enumerated with
        | some _ => exact .ok
        | none =>
            dsimp only
            split
            · exact .ok
            · next range found =>
              have within := inside.child found (by decide)
              refine (within.requiredWord (by decide)).bind fun minimum _ => ?_
              exact (within.requiredWord (by decide)).bind fun maximum _ => .ok

/-- Ends that an encoding gives are refused when they are written backwards.  The range in the fault
is written with the higher bit first, as it was given. -/
theorem checkBitRange {e : Encoding} {r : BitRange} (gives : e.Gives s r) :
    Blames root (do return some (← Description.checkBitRange s e.last r.msb r.lsb)) := by
  refine Blames.bind ?_ fun _ _ => .ok
  unfold Description.checkBitRange
  split
  · next order =>
    rintro _ ⟨⟩
    exact ⟨s, _, h, by cases e <;> decide, .backwards gives order⟩
  · exact .ok

theorem readBitRange : Blames root (readBitRange s) := by
  -- What was read on the way says which encoding the document gives, and so what a fault is about.
  refine (h.value? (by decide) quotes_read).bind fun written bracketed => ?_
  cases written with
  | some ends =>
      have gives : Encoding.brackets.Gives s ⟨ends.2, ends.1⟩ :=
        Encoding.gives_brackets_iff.mpr bracketed
      exact h.checkBitRange gives
  | none =>
      refine (h.word? (by decide)).bind fun lowest low => ?_
      cases lowest with
      | some lsb =>
          refine (h.requiredWord (by decide)).bind fun msb high => ?_
          have gives : Encoding.ends.Gives s ⟨lsb, msb⟩ :=
            .ends (word?_eq_some_iff.mp low) (requiredWord_eq_ok_iff.mp high)
          exact h.checkBitRange gives
      | none =>
          dsimp only
          split
          · exact h.missing (by decide) (value?_eq_none_iff.mp low)
          · refine (h.word? (by decide)).bind fun offset found => ?_
            cases offset with
            | none => exact .ok
            | some offset =>
                refine (h.word? (by decide)).bind fun width read => ?_
                have lowest := word?_eq_some_iff.mp found
                have bits : Encoding.Width s (width.getD 1) :=
                  Encoding.width_iff.mpr ⟨_, read, rfl⟩
                split
                · next msb top =>
                  have gives : Encoding.extent.Gives s ⟨offset, msb⟩ :=
                    .extent lowest bits (highestBit?_eq_some_iff.mp top).2.1
                  exact h.checkBitRange gives
                · next unfit =>
                  rintro _ ⟨⟩
                  exact ⟨s, _, h, by decide, .unfit lowest bits (highestBit?_eq_none_iff.mp unfit)⟩

/-! ### Nodes -/

theorem readEnumeratedCase : Blames root (readEnumeratedCase s) := by
  refine (h.value? (by decide) quotes_read).bind fun isDefault _ => ?_
  refine (h.value? (by decide) quotes_read).bind fun value found => ?_
  split
  · next required =>
    obtain rfl := Option.isNone_iff_eq_none.mp (Bool.and_eq_true_iff.mp required).1
    exact h.missing (by decide) (value?_eq_none_iff.mp found)
  · exact (h.required (by decide)).bind fun name _ => .ok

theorem readEnumeratedSet : Blames root (readEnumeratedSet s) := by
  refine (h.readEach rfl (by decide) fun _ _ ht => ht.readEnumeratedCase).bind fun cases _ => ?_
  exact (h.value? (by decide) quotes_read).bind fun usage _ => .ok

theorem readField : Blames root (readField s) := by
  refine h.readBitRange.bind fun bitRange found => ?_
  split
  · next required =>
    obtain rfl := Option.isNone_iff_eq_none.mp (Bool.and_eq_true_iff.mp required).1
    obtain _ | _ | _ | ⟨-, -, -, offset⟩ := readBitRange_ok found
    exact h.missing (by decide) (value?_eq_none_iff.mp offset)
  · refine (h.readEach rfl (by decide) fun _ _ ht => ht.readEnumeratedSet).bind fun sets _ => ?_
    refine (h.required (by decide)).bind fun name _ => ?_
    refine (h.value? (by decide) quotes_read).bind fun access _ => ?_
    refine (h.value? (by decide) quotes_read).bind fun writeEffect _ => ?_
    refine h.readWriteConstraint.bind fun writeConstraint _ => ?_
    refine (h.value? (by decide) quotes_read).bind fun readEffect _ => ?_
    exact h.readDimension.bind fun dimension _ => .ok

theorem readRegister : Blames root (readRegister s) := by
  refine (h.derivableWord (by decide) _).bind fun addressOffset _ => ?_
  refine (h.readEach rfl (by decide) fun _ _ ht => ht.readField).bind fun fields _ => ?_
  refine (h.required (by decide)).bind fun name _ => ?_
  refine h.readProperties.bind fun properties _ => ?_
  refine h.readDimension.bind fun dimension _ => ?_
  refine (h.value? (by decide) quotes_read).bind fun writeEffect _ => ?_
  refine h.readWriteConstraint.bind fun writeConstraint _ => ?_
  exact (h.value? (by decide) quotes_read).bind fun readEffect _ => .ok

theorem readClusterInfo : Blames root (readClusterInfo s) := by
  refine (h.derivableWord (by decide) _).bind fun addressOffset _ => ?_
  refine (h.required (by decide)).bind fun name _ => ?_
  refine h.readProperties.bind fun properties _ => ?_
  exact h.readDimension.bind fun dimension _ => .ok

theorem readAddressBlock : Blames root (readAddressBlock s) := by
  refine (h.requiredWord (by decide)).bind fun offset _ => ?_
  refine (h.requiredWord (by decide)).bind fun size _ => ?_
  refine (h.value? (by decide) quotes_read).bind fun usage _ => ?_
  exact (h.value? (by decide) quotes_read).bind fun protection _ => .ok

theorem readInterrupt : Blames root (readInterrupt s) := by
  refine (h.required (by decide)).bind fun name _ => ?_
  exact (h.requiredValue (by decide) quotes_read).bind fun value _ => .ok

/-- Registers and clusters are read one by one, and each is where its number leads. -/
theorem readItems {nodes : List Markup.Node}
    (counts : counted s.element "registers" = nodeElements nodes)
    (each : ∀ n ∈ nodes, ∀ t : Scope, n.element? = some t.element →
      t.element.name = "register" ∨ t.element.name = "cluster" → t.At root →
      Blames root (readNode t)) : Blames root (readItems s.path 0 nodes) := by
  rw [readItems_eq]
  show Blames root (s.readEach "registers" readNode (nodeElements nodes))
  refine h.readEach counts (by decide) fun t listed ht => ?_
  obtain ⟨child, kind⟩ := List.mem_filter.mp listed
  obtain ⟨n, hn, own⟩ := List.mem_filterMap.mp child
  exact each n hn t own (by simpa using kind) ht

end Scope.At

/-- **A register or cluster blames what is inside it**, by induction over its node. -/
theorem readNode_blames {root : Element} (n : Markup.Node) : ∀ s : Scope,
    n.element? = some s.element → s.element.name = "register" ∨ s.element.name = "cluster" →
      s.At root → Blames root (readNode s) := by
  induction n using Markup.Node.induct with
  | text _ => exact fun _ found => nomatch found
  | aside => exact fun _ found => nomatch found
  | element tag nodes ih =>
      rintro ⟨e, path⟩ found kind h
      obtain rfl := Option.some.inj found
      unfold readNode
      split
      · exact h.readRegister.bind fun r _ => .ok
      · next other =>
        have cluster := kind.resolve_left other
        have counts : counted ⟨tag, nodes⟩ "registers" = nodeElements nodes :=
          congrArg nodeElements (if_pos cluster)
        refine h.readClusterInfo.bind fun info _ => ?_
        exact (h.readItems counts ih).bind fun children _ => .ok

namespace Scope.At

variable {root : Element} {s : Scope} (h : s.At root)

include h

theorem readPeripheral (kind : s.element.name = "peripheral") : Blames root (readPeripheral s) := by
  have counts : counted s.element "registers" =
      nodeElements (((s.element.child? "registers").map (·.nodes)).getD []) :=
    congrArg nodeElements (if_neg (by rw [kind]; decide))
  refine (h.derivableWord (by decide) _).bind fun baseAddress _ => ?_
  refine (h.readEach rfl (by decide) fun _ _ ht => ht.readAddressBlock).bind fun blocks _ => ?_
  refine (h.readEach rfl (by decide) fun _ _ ht => ht.readInterrupt).bind fun interrupts _ => ?_
  refine (h.readItems counts fun n _ => readNode_blames n).bind fun children _ => ?_
  refine (h.required (by decide)).bind fun name _ => ?_
  refine h.readProperties.bind fun properties _ => ?_
  exact h.readDimension.bind fun dimension _ => .ok

theorem readDevice : Blames root (readDevice s) := by
  have kind : ∀ e ∈ containedElements s.element "peripherals" "peripheral",
      e.name = "peripheral" := by
    intro e listed
    unfold containedElements at listed
    split at listed
    · exact eq_of_beq (List.mem_filter.mp listed).2
    · cases listed
  have peripherals : Blames root (s.readEach "peripherals" Description.readPeripheral
      (containedElements s.element "peripherals" "peripheral")) :=
    h.readEach rfl (by decide) fun _ listed ht => ht.readPeripheral (kind _ listed)
  refine peripherals.bind fun peripherals _ => ?_
  refine (h.required (by decide)).bind fun name _ => ?_
  refine (h.word? (by decide)).bind fun addressUnitBits _ => ?_
  refine (h.word? (by decide)).bind fun width _ => ?_
  exact h.readProperties.bind fun properties _ => .ok

end Scope.At

/-! ### Documents -/

/-- **Faults are where they say.**  The path of a fault leads from the root to an element, and with
its last step to the child that the fault is about, if the element has one; the place is that of the
child, or else of the element.  Any other location whose path is written the same is the same, and
marks the same child. -/
theorem ofElement_marks {root : Element} {fault : DocumentFault} {l : Location}
    (failed : ofElement root = .error fault) (location : fault.location? = some l) :
    ∃ s name, Marks root l s name ∧ AtFault s name fault ∧
      ∀ l' s' name', Marks root l' s' name' → renderPath l'.path = renderPath l.path →
        l' = l ∧ s' = s ∧ name' = name := by
  unfold ofElement at failed
  split at failed
  · next device =>
    have named : ∀ step ∈ [Step.only "device"], step.Named :=
      List.forall_mem_singleton.mpr (show Name.IsIdentifier "device" by decide)
    have leads : locate? root [.only "device"] = some root := by
      rw [locate?, if_pos device.symm]
      rfl
    have here : Scope.At root ⟨root, [.only "device"]⟩ := ⟨leads, named⟩
    obtain ⟨s, name, h, value, wrong⟩ := here.readDevice fault failed
    obtain rfl : l = s.locationOf name := Option.some.inj (location.symm.trans wrong.location?)
    have marks := h.marks (isIdentifier_of_value name value)
    exact ⟨s, name, marks, wrong, fun _ _ _ => marks.unique⟩
  · obtain rfl := Except.error.inj failed
    cases location

/-! ### A register without an offset -/

/-- A device with a register and a cluster, whose register has no offset. -/
def unplaced : Element :=
  hosting
    [registerAt 101,
      .element (tagAt 154 "cluster")
        [valueAt 163 "name" "C", valueAt 177 "addressOffset" "8",
          .element (tagAt 207 "register") [valueAt 217 "name" "R"]]]

def unplacedOffset : Location where
  path :=
    [.only "device", .nth "peripherals" 0, .nth "registers" 1, .nth "registers" 0,
      .only "addressOffset"]
  position := ⟨1, 207⟩

/-- The offset is missed in the register that is the first one in the second node. -/
theorem ofElement_marks_unplaced :
    ofElement unplaced = .error (.missing unplacedOffset "addressOffset") ∧
      ∃ s name, Marks unplaced unplacedOffset s name ∧
        AtFault s name (.missing unplacedOffset "addressOffset") ∧
        ∀ l' s' name', Marks unplaced l' s' name' →
          renderPath l'.path = renderPath unplacedOffset.path →
            l' = unplacedOffset ∧ s' = s ∧ name' = name := by
  have failed : ofElement unplaced = .error (.missing unplacedOffset "addressOffset") := rfl
  exact ⟨failed, ofElement_marks failed rfl⟩

end ChipMap.Description
