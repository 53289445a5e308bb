import ChipMap.Description.OfMarkup
import ChipMap.Proofs.Description.Item
import ChipMap.Proofs.Sequence

/-!
# What a document guarantees

A description is read node by node, so **what the reader of a node guarantees holds of every node of
the description**, at any depth (`readItems_all`).  One such guarantee is that a bit range has a bit
(`ReadsBits.ordered`), in each of the three ways of writing one.

The other lemmas take a reader apart.  A reader that succeeds has read each of its parts, and the
lemmas named `readField_ok`, `readRegister_ok` and `readPeripheral_ok` keep the parts that later
proofs ask for.

### What is load-bearing

A cluster holds nodes that are clusters again, and so does an element of a document.  The induction
over a document (`Node.induct`) gives a hypothesis for each child of an element, and meets the
induction over descriptions at every cluster.

Texts are read from lists of characters, so a text that is given as a list can be evaluated
(`read?_eq`, `ofText_eq`).  The witnesses at the end of other modules are such texts.
-/

namespace ChipMap.Markup

/-- **Induction over the nodes of a document**, with a hypothesis for each child of an element. -/
theorem Node.induct {motive : Node → Prop} (text : ∀ content, motive (.text content))
    (aside : motive .aside)
    (element : ∀ tag children, (∀ c ∈ children, motive c) → motive (.element tag children)) :
    ∀ node, motive node
  | .text content => text content
  | .aside => aside
  | .element tag children =>
      element tag children fun c _ => Node.induct text aside element c
termination_by node => sizeOf node
decreasing_by
  simp_wf
  have := List.sizeOf_lt_of_mem ‹c ∈ children›
  omega

/-- **What the characters of a text are read as.**  A closed text is evaluated from here. -/
theorem read?_eq {text : String} {cs : List Char} (h : text = String.ofList cs) :
    read? text = (do
      let (_, cursor) ← lead.run ⟨cs, .origin⟩
      ofTokens? (← tokensFrom? (cursor.rest.length + 1) cursor)) := by
  subst h
  simp only [read?, tokens?, Text.Cursor.ofText, String.toList_ofList, bind_assoc]

end ChipMap.Markup

namespace ChipMap.Description

/-- What each of a list of elements is read as.  The scope is not named, since the guarantees hold
of all scopes. -/
theorem exists_of_readEach {α : Type} {s : Scope} {name : String}
    {read : Scope → Except DocumentFault α} {elements : List Markup.Element} {values : List α}
    (h : s.readEach name read elements = .ok values) {x : α} (hx : x ∈ values) :
    ∃ inner, read inner = .ok x := by
  obtain ⟨⟨element, index⟩, -, hread⟩ := exists_of_mapM_eq_ok h hx
  exact ⟨_, hread⟩

/-! ### Nodes at any depth -/

section Items

variable {onRegister : Register → Prop} {onCluster : ClusterInfo → Prop}

/-- The children that are read come from one node each.  The number of the node is some number. -/
theorem exists_of_readItems {nodes : List Markup.Node} :
    ∀ {path : List Step} {index : Nat} {items : List Item},
      readItems path index nodes = .ok items → ∀ item ∈ items,
        ∃ node ∈ nodes, ∃ k, readItem path k node = .ok (some item) := by
  induction nodes with
  | nil =>
      intro path index items h item hitem
      rw [readItems] at h
      cases Except.ok.inj h
      cases hitem
  | cons node rest ih =>
      intro path index items h item hitem
      rw [readItems] at h
      obtain ⟨first, hfirst, h⟩ := bind_eq_ok.mp h
      cases first with
      | none =>
          obtain ⟨node', hnode', found⟩ := ih h item hitem
          exact ⟨node', List.mem_cons_of_mem _ hnode', found⟩
      | some x =>
          obtain ⟨others, hothers, h⟩ := bind_eq_ok.mp h
          cases Except.ok.inj h
          rcases List.mem_cons.mp hitem with rfl | hitem
          · exact ⟨node, List.mem_cons_self, index, hfirst⟩
          · obtain ⟨node', hnode', found⟩ := ih hothers item hitem
            exact ⟨node', List.mem_cons_of_mem _ hnode', found⟩

/-- **Every register and cluster that is read** has what its reader guarantees, by induction over
the node. -/
theorem readItem_all (register : ∀ s r, readRegister s = .ok r → onRegister r)
    (cluster : ∀ s info, readClusterInfo s = .ok info → onCluster info) (node : Markup.Node) :
    ∀ {path : List Step} {index : Nat} {item : Item},
      readItem path index node = .ok (some item) → item.All onRegister onCluster := by
  induction node using Markup.Node.induct with
  | text content =>
      intro path index item h
      rw [readItem] at h
      cases h
  | aside =>
      intro path index item h
      rw [readItem] at h
      cases h
  | element tag nodes ih =>
      intro path index item h
      rw [readItem] at h
      split at h
      · obtain ⟨r, hr, h⟩ := bind_eq_ok.mp h
        cases Except.ok.inj h
        exact .register (register _ r hr)
      · split at h
        · obtain ⟨info, hinfo, h⟩ := bind_eq_ok.mp h
          obtain ⟨children, hchildren, h⟩ := bind_eq_ok.mp h
          cases Except.ok.inj h
          refine .cluster (cluster _ info hinfo) fun c hc => ?_
          obtain ⟨node, hnode, k, found⟩ := exists_of_readItems hchildren c hc
          exact ih node hnode found
        · cases h

theorem readItems_all (register : ∀ s r, readRegister s = .ok r → onRegister r)
    (cluster : ∀ s info, readClusterInfo s = .ok info → onCluster info)
    {nodes : List Markup.Node} {path : List Step} {index : Nat} {items : List Item}
    (h : readItems path index nodes = .ok items) :
    ∀ item ∈ items, item.All onRegister onCluster := by
  intro item hitem
  obtain ⟨node, -, k, found⟩ := exists_of_readItems h item hitem
  exact readItem_all register cluster node found

end Items

/-- **Every peripheral of a document** was read by its reader. -/
theorem exists_of_ofText {text : String} {d : Device} (h : ofText text = .ok d)
    {p : Peripheral} (hp : p ∈ d.peripherals) : ∃ s, readPeripheral s = .ok p := by
  unfold ofText at h
  split at h
  · unfold ofElement at h
    split at h
    · obtain ⟨peripherals, hperipherals, h⟩ := bind_eq_ok.mp h
      obtain ⟨name, -, h⟩ := bind_eq_ok.mp h
      obtain ⟨unitBits, -, h⟩ := bind_eq_ok.mp h
      obtain ⟨width, -, h⟩ := bind_eq_ok.mp h
      obtain ⟨properties, -, h⟩ := bind_eq_ok.mp h
      cases Except.ok.inj h
      exact exists_of_readEach hperipherals hp
    · cases h
  · cases h

/-- A peripheral that is read: its base address may be left out when it has a reference, and its
children are read one by one. -/
theorem readPeripheral_ok {s : Scope} {p : Peripheral} (h : readPeripheral s = .ok p) :
    s.derivableWord p.derivedFrom "baseAddress" = .ok p.baseAddress ∧
      ∃ nodes, readItems s.path 0 nodes = .ok p.children := by
  obtain ⟨baseAddress, hbase, h⟩ := bind_eq_ok.mp h
  obtain ⟨blocks, -, h⟩ := bind_eq_ok.mp h
  obtain ⟨interrupts, -, h⟩ := bind_eq_ok.mp h
  obtain ⟨children, hchildren, h⟩ := bind_eq_ok.mp h
  obtain ⟨name, -, h⟩ := bind_eq_ok.mp h
  obtain ⟨properties, -, h⟩ := bind_eq_ok.mp h
  obtain ⟨dimension, -, h⟩ := bind_eq_ok.mp h
  cases Except.ok.inj h
  exact ⟨hbase, _, hchildren⟩

/-- A register that is read: its offset may be left out when it has a reference, and its fields are
read one by one. -/
theorem readRegister_ok {s : Scope} {r : Register} (h : readRegister s = .ok r) :
    s.derivableWord r.derivedFrom "addressOffset" = .ok r.addressOffset ∧
      ∀ f ∈ r.fields, ∃ inner, readField inner = .ok f := by
  obtain ⟨addressOffset, hoffset, h⟩ := bind_eq_ok.mp h
  obtain ⟨fields, hfields, h⟩ := bind_eq_ok.mp h
  obtain ⟨name, -, h⟩ := bind_eq_ok.mp h
  obtain ⟨properties, -, h⟩ := bind_eq_ok.mp h
  obtain ⟨dimension, -, h⟩ := bind_eq_ok.mp h
  obtain ⟨writeEffect, -, h⟩ := bind_eq_ok.mp h
  obtain ⟨writeConstraint, -, h⟩ := bind_eq_ok.mp h
  obtain ⟨readEffect, -, h⟩ := bind_eq_ok.mp h
  cases Except.ok.inj h
  exact ⟨hoffset, fun f hf => exists_of_readEach hfields hf⟩

/-- A field that is read: its bit range may be left out when it has a reference, and only then. -/
theorem readField_ok {s : Scope} {f : Field} (h : readField s = .ok f) :
    readBitRange s = .ok f.bitRange ∧ ¬(f.bitRange.isNone && f.derivedFrom.isNone) = true := by
  obtain ⟨bitRange, hrange, h⟩ := bind_eq_ok.mp h
  split at h
  · cases h
  · next present =>
    obtain ⟨enumeratedSets, -, h⟩ := bind_eq_ok.mp h
    obtain ⟨name, -, h⟩ := bind_eq_ok.mp h
    obtain ⟨access, -, h⟩ := bind_eq_ok.mp h
    obtain ⟨writeEffect, -, h⟩ := bind_eq_ok.mp h
    obtain ⟨writeConstraint, -, h⟩ := bind_eq_ok.mp h
    obtain ⟨readEffect, -, h⟩ := bind_eq_ok.mp h
    obtain ⟨dimension, -, h⟩ := bind_eq_ok.mp h
    cases Except.ok.inj h
    exact ⟨hrange, present⟩

/-! ### Bit ranges -/

theorem checkBitRange_eq_ok_iff {s : Scope} {name : String} {msb lsb : Word} {r : BitRange} :
    checkBitRange s name msb lsb = .ok r ↔ lsb.toNat ≤ msb.toNat ∧ r = ⟨lsb, msb⟩ := by
  unfold checkBitRange
  split
  · next order =>
    exact ⟨(fun h => nomatch h), fun h => absurd h.1 (Nat.not_le.mpr order)⟩
  · next order =>
    rw [Except.ok.injEq, eq_comm (a := r)]
    exact ⟨fun h => ⟨Nat.le_of_not_lt order, h⟩, fun h => h.2⟩

/-- **The ways in which the bits of a field are read**: as a range, or else as its ends, or else as
an offset with a width.  In each of them the ends are in order.  Each way also says that the ways
before it have not begun. -/
inductive ReadsBits (s : Scope) : Option BitRange → Prop
  | brackets {lsb msb : Word} : s.value? "bitRange" Numeral.readBitRange = .ok (some (msb, lsb)) →
    lsb.toNat ≤ msb.toNat → ReadsBits s (some ⟨lsb, msb⟩)
  | ends {lsb msb : Word} : s.value? "bitRange" Numeral.readBitRange = .ok none →
    s.word? "lsb" = .ok (some lsb) → s.requiredWord "msb" = .ok msb → lsb.toNat ≤ msb.toNat →
      ReadsBits s (some ⟨lsb, msb⟩)
  | extent {lsb msb : Word} {width : Option Word} :
    s.value? "bitRange" Numeral.readBitRange = .ok none → s.word? "lsb" = .ok none →
      s.element.child? "msb" = none → s.word? "bitOffset" = .ok (some lsb) →
        s.word? "bitWidth" = .ok width → highestBit? lsb (width.getD 1) = some msb →
          lsb.toNat ≤ msb.toNat → ReadsBits s (some ⟨lsb, msb⟩)
  | nothing : s.value? "bitRange" Numeral.readBitRange = .ok none → s.word? "lsb" = .ok none →
    s.element.child? "msb" = none → s.word? "bitOffset" = .ok none → ReadsBits s none

theorem ReadsBits.checked {s : Scope} {name : String} {msb lsb : Word} {bits : Option BitRange}
    (h : (do return some (← checkBitRange s name msb lsb)) = .ok bits)
    (way : lsb.toNat ≤ msb.toNat → ReadsBits s (some ⟨lsb, msb⟩)) : ReadsBits s bits := by
  obtain ⟨r, checked, same⟩ := bind_eq_ok.mp h
  obtain ⟨order, rfl⟩ := checkBitRange_eq_ok_iff.mp checked
  obtain rfl := Except.ok.inj same
  exact way order

/-- **Bits are read in one of these ways.**  The order of the cases is that of the reader. -/
theorem readBitRange_ok {s : Scope} {bits : Option BitRange} (h : readBitRange s = .ok bits) :
    ReadsBits s bits := by
  obtain ⟨written, bracketed, h⟩ := bind_eq_ok.mp h
  cases written with
  | some ends => exact .checked h (.brackets bracketed)
  | none =>
      obtain ⟨lowest, low, h⟩ := bind_eq_ok.mp h
      cases lowest with
      | some lsb =>
          obtain ⟨msb, high, h⟩ := bind_eq_ok.mp h
          exact .checked h (.ends bracketed low high)
      | none =>
          dsimp only at h
          split at h
          · cases h
          · next highest =>
            have absent := Option.not_isSome_iff_eq_none.mp highest
            obtain ⟨offset, found, h⟩ := bind_eq_ok.mp h
            cases offset with
            | none =>
                obtain rfl := Except.ok.inj h
                exact .nothing bracketed low absent found
            | some offset =>
                obtain ⟨width, given, h⟩ := bind_eq_ok.mp h
                split at h
                · next msb top => exact .checked h (.extent bracketed low absent found given top)
                · cases h

/-- **A bit range that is read has a bit.** -/
theorem ReadsBits.ordered {s : Scope} {r : BitRange} (h : ReadsBits s (some r)) :
    r.lsb.toNat ≤ r.msb.toNat := by
  cases h with
  | brackets _ order => exact order
  | ends _ _ _ order => exact order
  | extent _ _ _ _ _ _ order => exact order

/-- A field that is read has a bit. -/
theorem readField_ranged {s : Scope} {f : Field} (h : readField s = .ok f) : f.Ranged := by
  intro r hr
  have range := (readField_ok h).1
  rw [Option.mem_def.mp hr] at range
  exact (readBitRange_ok range).ordered

theorem readRegister_ranged {s : Scope} {r : Register} (h : readRegister s = .ok r) :
    ∀ f ∈ r.fields, f.Ranged := by
  intro f hf
  obtain ⟨inner, hinner⟩ := (readRegister_ok h).2 f hf
  exact readField_ranged hinner

/-- **All fields of a document have a bit**, whether or not they derive their bits from another
field later on. -/
theorem ofText_ranged {text : String} {d : Device} (h : ofText text = .ok d) : d.Ranged := by
  intro p hp
  obtain ⟨s, hs⟩ := exists_of_ofText h hp
  obtain ⟨-, nodes, hnodes⟩ := readPeripheral_ok hs
  exact readItems_all (fun _ _ hr => readRegister_ranged hr) (fun _ _ _ => trivial) hnodes

/-! ### A text that is written out -/

/-- What the characters of a text are described as. -/
theorem ofText_eq {text : String} {cs : List Char} (h : text = String.ofList cs) :
    ofText text =
      match (do
        let (_, cursor) ← Markup.lead.run ⟨cs, .origin⟩
        Markup.ofTokens? (← Markup.tokensFrom? (cursor.rest.length + 1) cursor)) with
      | some root => ofElement root
      | none => .error .notWellFormed := by
  unfold ofText
  rewrite [Markup.read?_eq h]
  rfl

end ChipMap.Description
