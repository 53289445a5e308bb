import ChipMap.Proofs.Inheritance.Inherits
import ChipMap.Proofs.Inheritance.Settle
import ChipMap.Proofs.Map.OfText
import ChipMap.Proofs.Order.Document
import ChipMap.Proofs.Order.Layout
import ChipMap.Proofs.Order.Resolution
import ChipMap.Source.Export

/-!
# The map of a document in another order

**The order of siblings in a document does not show in its map** (`ofText_alike`), nor in the
warnings and the files that come from the map.  Each of the three steps from a text to a map takes
two orders to two orders, and the last one to one map.

### What is load-bearing

References are followed by names, so no two siblings of the document have one name.  Names are
claimed in the order of the resolved description, where every node has an address, be it its own or
one that it took over; so it is there that no two siblings are tied.  `upward` and `downward` are
one small document in two orders at each level.
-/

namespace ChipMap.Markup

/-- **Two documents that differ in the order of siblings only**, or two texts that are none. -/
def Reordered (text text' : String) : Prop :=
  Option.Rel Element.Reordered (read? text) (read? text')

end ChipMap.Markup

namespace ChipMap.Map

open Markup (Node)

variable {text text' : String}

/-- Two orders of a document are described as two orders of one device. -/
theorem described_alike (h : Markup.Reordered text text') :
    Alike Description.Device.Reordered (Description.ofText text) (Description.ofText text') := by
  unfold Description.ofText
  rcases optionRel_iff.mp h with ⟨left, right⟩ | ⟨root, root', left, right, r⟩
  · rw [left, right]
    exact .error
  · rw [left, right]
    exact Description.ofElement_alike r

/-- Two orders of a document without namesakes resolve to two orders of one device. -/
theorem resolvedOfText_alike (h : Markup.Reordered text text')
    (distinct : ∀ d, Description.ofText text = .ok d → d.Distinct) :
    Alike Description.Device.Reordered (resolvedOfText text) (resolvedOfText text') := by
  refine ((described_alike h).returned.mapError _ _).bind fun d d' ⟨described, _, reordered⟩ => ?_
  exact (Inheritance.resolve_alike reordered (distinct d described)).mapError _ _

/-- **Two orders of a document have one map**, with the same warnings and the same files for all
options; or neither of them has a map. -/
theorem ofText_alike (h : Markup.Reordered text text')
    (distinct : ∀ d, Description.ofText text = .ok d → d.Distinct)
    (untied : ∀ r, resolvedOfText text = .ok r → DeviceUntied r) :
    Alike
      (fun c c' => c.device = c'.device ∧ c.warnings = c'.warnings ∧
        ∀ o, Source.exportMap c.device o = Source.exportMap c'.device o)
      (ofText text) (ofText text') := by
  refine (resolvedOfText_alike h distinct).returned.bind fun r r' ⟨resolved, _, reordered⟩ => ?_
  refine ((ofDescription_alike reordered (untied r resolved)).mapError _ _).bind_eq fun device => ?_
  exact .ok ⟨rfl, rfl, fun _ => rfl⟩

/-! ### A small document in two orders -/

/-- A document with two fields, two registers and two peripherals. -/
def upward : String :=
  "<device><name>D</name><peripherals>
  <peripheral><name>P</name><baseAddress>0</baseAddress><registers>
  <register><name>R</name><addressOffset>0</addressOffset><fields>
  <field><name>F</name><bitRange>[0:0]</bitRange><access>read-only</access></field>
  <field><name>G</name><bitRange>[1:1]</bitRange><access>read-only</access></field>
  </fields></register>
  <register derivedFrom='R'><name>r</name><addressOffset>4</addressOffset></register>
  </registers></peripheral>
  <peripheral derivedFrom='P'><name>Q</name><baseAddress>8</baseAddress></peripheral>
  </peripherals></device>"

/-- The document with each pair of siblings in the other order. -/
def downward : String :=
  "<device><name>D</name><peripherals>
  <peripheral derivedFrom='P'><name>Q</name><baseAddress>8</baseAddress></peripheral>
  <peripheral><name>P</name><baseAddress>0</baseAddress><registers>
  <register derivedFrom='R'><name>r</name><addressOffset>4</addressOffset></register>
  <register><name>R</name><addressOffset>0</addressOffset><fields>
  <field><name>G</name><bitRange>[1:1]</bitRange><access>read-only</access></field>
  <field><name>F</name><bitRange>[0:0]</bitRange><access>read-only</access></field>
  </fields></register>
  </registers></peripheral>
  </peripherals></device>"

def leaf (name content : String) (line column : Nat) : Node :=
  .element ⟨name, [], ⟨line, column⟩⟩ [.text content]

/-- Two siblings, each on lines of its own. -/
def apart (a b : Node) : List Node := [.text "\n  ", a, .text "\n  ", b, .text "\n  "]

/-- A field of the document, on a line. -/
def fieldNode (name bits : String) (line : Nat) : Node :=
  .element ⟨"field", [], ⟨line, 3⟩⟩
    [leaf "name" name line 10, leaf "bitRange" bits line 24, leaf "access" "read-only" line 50]

def registerNode (fields : List Node) (line : Nat) : Node :=
  .element ⟨"register", [], ⟨line, 3⟩⟩
    [leaf "name" "R" line 13, leaf "addressOffset" "0" line 27,
      .element ⟨"fields", [], ⟨line, 59⟩⟩ fields]

def derivedRegisterNode (line : Nat) : Node :=
  .element ⟨"register", [("derivedFrom", "R")], ⟨line, 3⟩⟩
    [leaf "name" "r" line 29, leaf "addressOffset" "4" line 43]

def peripheralNode (registers : List Node) (line : Nat) : Node :=
  .element ⟨"peripheral", [], ⟨line, 3⟩⟩
    [leaf "name" "P" line 15, leaf "baseAddress" "0" line 29,
      .element ⟨"registers", [], ⟨line, 57⟩⟩ registers]

def derivedPeripheralNode (line : Nat) : Node :=
  .element ⟨"peripheral", [("derivedFrom", "P")], ⟨line, 3⟩⟩
    [leaf "name" "Q" line 31, leaf "baseAddress" "8" line 45]

def rootNode (peripherals : List Node) : Markup.Element where
  tag := ⟨"device", [], ⟨1, 1⟩⟩
  nodes := [leaf "name" "D" 1 9, .element ⟨"peripherals", [], ⟨1, 23⟩⟩ peripherals]

def upwardRoot : Markup.Element :=
  rootNode (apart
    (peripheralNode (apart
      (registerNode (apart (fieldNode "F" "[0:0]" 4) (fieldNode "G" "[1:1]" 5)) 3)
      (derivedRegisterNode 7)) 2)
    (derivedPeripheralNode 9))

def downwardRoot : Markup.Element :=
  rootNode (apart
    (derivedPeripheralNode 2)
    (peripheralNode (apart
      (derivedRegisterNode 4)
      (registerNode (apart (fieldNode "G" "[1:1]" 6) (fieldNode "F" "[0:0]" 7)) 5)) 3))

set_option maxRecDepth 4000 in
theorem read_upward : Markup.read? upward = some upwardRoot := by
  have written : upward = String.ofList _ := rfl
  rw [Markup.read?_eq written]
  cbv

set_option maxRecDepth 4000 in
theorem read_downward : Markup.read? downward = some downwardRoot := by
  have written : downward = String.ofList _ := rfl
  rw [Markup.read?_eq written]
  cbv

section

variable {a a' b b' : Node}

/-- Two siblings stand in the other order. -/
theorem apart_reordered {tag tag' : Markup.Tag} (same : tag.Same tag') (ha : a.Reordered a')
    (hb : b.Reordered b') (first : a.isSibling tag.name = true)
    (second : b.isSibling tag.name = true) :
    (Node.element tag (apart a b)).Reordered (Node.element tag' (apart b' a')) := by
  have first' := (ha.isSibling tag.name).symm.trans first
  have second' := (hb.isSibling tag.name).symm.trans second
  have others {x y : Node} (hx : x.isSibling tag.name = true) (hy : y.isSibling tag.name = true) :
      (apart x y).filter (Node.isOther tag.name) = [] := by
    simp [apart, Node.isOther_of_isSibling hx, Node.isOther_of_isSibling hy]
  have siblings {x y : Node} (hx : x.isSibling tag.name = true)
      (hy : y.isSibling tag.name = true) :
      (apart x y).filter (Node.isSibling tag.name) = [x, y] := by
    simp [apart, hx, hy]
  have pairs : List.Forall₂ Node.Reordered ((apart a b).filter (Node.isSibling tag.name))
      [a', b'] := by
    rw [siblings first second]
    exact .cons ha (.cons hb .nil)
  refine .siblings same (Node.holds_of_isSibling first) ?_ pairs ?_
  · rw [others first second, others second' first']
    exact .nil
  · rw [siblings second' first']
    exact List.Perm.swap b' a' []

theorem leaf_reordered {name content : String} {line column line' column' : Nat}
    (plain : Markup.siblingsIn name = []) :
    (leaf name content line column).Reordered (leaf name content line' column') :=
  .plain ⟨rfl, rfl⟩ plain (.cons (.text content) .nil)

theorem fieldNode_reordered {name bits : String} {line line' : Nat} :
    (fieldNode name bits line).Reordered (fieldNode name bits line') :=
  .plain ⟨rfl, rfl⟩ rfl
    (.cons (leaf_reordered rfl) (.cons (leaf_reordered rfl) (.cons (leaf_reordered rfl) .nil)))

theorem registerNode_reordered {line line' : Nat} (ha : a.Reordered a') (hb : b.Reordered b')
    (first : a.isSibling "fields" = true) (second : b.isSibling "fields" = true) :
    (registerNode (apart a b) line).Reordered (registerNode (apart b' a') line') :=
  .plain ⟨rfl, rfl⟩ rfl (.cons (leaf_reordered rfl) (.cons (leaf_reordered rfl)
    (.cons (apart_reordered ⟨rfl, rfl⟩ ha hb first second) .nil)))

theorem peripheralNode_reordered {line line' : Nat} (ha : a.Reordered a') (hb : b.Reordered b')
    (first : a.isSibling "registers" = true) (second : b.isSibling "registers" = true) :
    (peripheralNode (apart a b) line).Reordered (peripheralNode (apart b' a') line') :=
  .plain ⟨rfl, rfl⟩ rfl (.cons (leaf_reordered rfl) (.cons (leaf_reordered rfl)
    (.cons (apart_reordered ⟨rfl, rfl⟩ ha hb first second) .nil)))

theorem derivedRegisterNode_reordered {line line' : Nat} :
    (derivedRegisterNode line).Reordered (derivedRegisterNode line') :=
  .plain ⟨rfl, rfl⟩ rfl (.cons (leaf_reordered rfl) (.cons (leaf_reordered rfl) .nil))

theorem derivedPeripheralNode_reordered {line line' : Nat} :
    (derivedPeripheralNode line).Reordered (derivedPeripheralNode line') :=
  .plain ⟨rfl, rfl⟩ rfl (.cons (leaf_reordered rfl) (.cons (leaf_reordered rfl) .nil))

theorem rootNode_reordered (ha : a.Reordered a') (hb : b.Reordered b')
    (first : a.isSibling "peripherals" = true) (second : b.isSibling "peripherals" = true) :
    (rootNode (apart a b)).Reordered (rootNode (apart b' a')) :=
  .plain ⟨rfl, rfl⟩ rfl
    (.cons (leaf_reordered rfl) (.cons (apart_reordered ⟨rfl, rfl⟩ ha hb first second) .nil))

end

/-- **The two texts are one document in two orders.** -/
theorem upward_reordered : Markup.Reordered upward downward := by
  rw [Markup.Reordered, read_upward, read_downward]
  refine .some (rootNode_reordered ?_ derivedPeripheralNode_reordered rfl rfl)
  refine peripheralNode_reordered ?_ derivedRegisterNode_reordered rfl rfl
  exact registerNode_reordered fieldNode_reordered fieldNode_reordered rfl rfl

/-- The register of the document with its fields. -/
def fieldedRegister : Description.Register :=
  Inheritance.plainRegister "R" 0 none
    [Inheritance.bitField "F" 0 .readOnly, Inheritance.bitField "G" 1 .readOnly]

/-- A peripheral of which nothing but its place is said. -/
def plainPeripheral (name : String) (base : Word) (derivedFrom : Option String)
    (registers : List Description.Register) : Description.Peripheral :=
  { Inheritance.barePeripheral name "" with
    derivedFrom, baseAddress := some base, children := registers.map .register }

/-- What `upward` describes. -/
def upwardDevice : Description.Device :=
  { Inheritance.oneBlock [] with
    peripherals := [
      plainPeripheral "P" 0 none [fieldedRegister, Inheritance.plainRegister "r" 4 (some "R") []],
      plainPeripheral "Q" 8 (some "P") []] }

/-- Both registers with the fields of the first one. -/
def fieldedRegisters : List Description.Register :=
  [fieldedRegister, { fieldedRegister with name := "r", addressOffset := some 4 }]

/-- What `upward` describes once it is resolved: `Q` has the registers of `P` too. -/
def upwardResolved : Description.Device :=
  { Inheritance.oneBlock [] with
    peripherals := [
      plainPeripheral "P" 0 none fieldedRegisters, plainPeripheral "Q" 8 none fieldedRegisters] }

theorem described_upward : Description.ofText upward = .ok upwardDevice := by
  rw [Description.ofText, read_upward]
  cbv

theorem resolve_upward : Inheritance.resolve upwardDevice = .ok upwardResolved := by
  rfl

theorem upwardDevice_distinct : upwardDevice.Distinct := by
  have registers : ∀ r ∈ [fieldedRegister, Inheritance.plainRegister "r" 4 (some "R") []],
      (r.fields.map (·.name)).Nodup := by decide
  refine ⟨by decide, fun p hp => ?_⟩
  rcases List.mem_pair.mp hp with rfl | rfl
  · exact ⟨by decide, List.forall_mem_map.mpr fun r hr => .register (registers r hr)⟩
  · exact ⟨.nil, fun _ none => nomatch none⟩

theorem upwardResolved_untied : DeviceUntied upwardResolved := by
  have registers : Untied ((fieldedRegisters.map Description.Item.register).flatMap
      (itemElements ⟨"", ""⟩)) := by decide
  have fields : Untied (fieldedRegister.fields.flatMap fieldElements) := by decide
  refine ⟨by decide, fun p hp => ?_⟩
  rcases List.mem_pair.mp hp with rfl | rfl
  all_goals
    refine ⟨registers, List.forall_mem_map.mpr fun r hr => .register ?_⟩
    rcases List.mem_pair.mp hr with rfl | rfl
    · exact fields
    · exact fields

theorem resolvedOfText_upward : resolvedOfText upward = .ok upwardResolved := by
  rw [resolvedOfText, described_upward]
  exact congrArg (·.mapError ChipFault.reference) resolve_upward

theorem distinct_upward : ∀ d, Description.ofText upward = .ok d → d.Distinct := by
  intro d h
  obtain rfl := Except.ok.inj (described_upward.symm.trans h)
  exact upwardDevice_distinct

theorem ofText_upward : ∃ c, ofText upward = .ok c := by
  have done : (ofText upward).isOk = true := by
    rw [ofText, resolvedOfText_upward]
    cbv
  cases h : ofText upward with
  | error _ =>
      rw [h] at done
      cases done
  | ok c => exact ⟨c, rfl⟩

/-- The two orders have one map. -/
theorem ofText_alike_upward : ∃ c c', ofText upward = .ok c ∧ ofText downward = .ok c' ∧
    c.device = c'.device ∧ c.warnings = c'.warnings ∧
    ∀ o, Source.exportMap c.device o = Source.exportMap c'.device o := by
  have untied : ∀ r, resolvedOfText upward = .ok r → DeviceUntied r := by
    intro r h
    obtain rfl := Except.ok.inj (resolvedOfText_upward.symm.trans h)
    exact upwardResolved_untied
  obtain ⟨c, h⟩ := ofText_upward
  have alike := ofText_alike upward_reordered distinct_upward untied
  obtain ⟨c', other, same⟩ := alike.exists_right h
  exact ⟨c, c', h, other, same⟩

end ChipMap.Map
