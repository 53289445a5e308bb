import ChipMap.Proofs.Description.Readers
import ChipMap.Proofs.Order.Description
import ChipMap.Proofs.Order.Markup

/-!
# Descriptions of documents in another order

A reader takes the attributes of a node from the first child of a name, and the siblings inside it
one after another.  So **two orders of a document are read as two orders of one description**, or
none of them is one (`ofElement_alike`).  The faults that are reported may differ: they name the
places of elements.

### What is load-bearing

Names of elements fall into two sorts.  An element of a *fixed* name is no sibling, so the first
child of such a name is the same in both orders; a *leaf* holds no siblings either, so its text is
the same as well.  All attributes are read from leaves, which makes the readers of attributes
indifferent to the order at once (`reordered_indistinct`).  What is left are the four containers of
siblings.
-/

namespace ChipMap.Description

open Markup (siblingsIn Element)

/-- Two orders of an element.  The paths that lead to them may differ. -/
def Scope.Reordered (s s' : Scope) : Prop := s.element.Reordered s'.element

/-- No sibling has this name, so children of this name stay in their order. -/
def Fixed (name : String) : Prop := name ∉ ["peripheral", "register", "cluster", "field"]

/-- No sibling has this name, and an element of this name holds no siblings.  The texts of such
elements are what attributes are read from. -/
def Leaf (name : String) : Prop := Fixed name ∧ siblingsIn name = []

instance (name : String) : Decidable (Fixed name) := inferInstanceAs (Decidable (_ ∉ _))

instance (name : String) : Decidable (Leaf name) := inferInstanceAs (Decidable (_ ∧ _))

theorem Fixed.not_mem {name : String} (h : Fixed name) (parent : String) :
    name ∉ siblingsIn parent := by
  intro mem
  refine h ?_
  unfold siblingsIn at mem
  split at mem
  · simp_all
  · split at mem
    · simp only [List.mem_cons, List.not_mem_nil, or_false] at mem ⊢
      tauto
    · split at mem
      · simp_all
      · cases mem

theorem leaf_of_value : ∀ name ∈ valueNames, Leaf name := by decide

theorem fixed_of_fixedNames : ∀ name ∈ fixedNames, Fixed name := by decide

/-! ### Attributes -/

namespace Scope.Reordered

variable {s s' : Scope} (h : s.Reordered s')

include h

theorem child? (name : String) (fixed : Fixed name) :
    Option.Rel Element.Reordered (s.element.child? name) (s'.element.child? name) :=
  Element.Reordered.child? h (fixed.not_mem _)

theorem named (name : String) (fixed : Fixed name) :
    List.Forall₂ Element.Reordered (s.element.named name) (s'.element.named name) :=
  Element.Reordered.named_forall₂ h (fixed.not_mem _)

theorem attribute?_eq (name : String) : s.attribute? name = s'.attribute? name := by
  rw [Scope.attribute?, Element.Reordered.attribute?_eq h, ← Scope.attribute?]

theorem text?_eq (name : String) (leaf : Leaf name) : s.text? name = s'.text? name := by
  unfold Scope.text?
  rcases optionRel_iff.mp (h.child? name leaf.1) with ⟨left, right⟩ | ⟨e, e', left, right, r⟩
  · rw [left, right]
  · have plain : siblingsIn e.name = [] := Element.name_of_child? left ▸ leaf.2
    rw [left, right, Option.map_some, Option.map_some, r.text_eq plain]

end Scope.Reordered

/-- **Readers do not tell two orders apart**, as far as they read no siblings. -/
theorem reordered_indistinct : Indistinct (fun _ _ => True) Scope.Reordered where
  attribute? h name := h.attribute?_eq name
  text? h name value := h.text?_eq name (leaf_of_value name value)
  location _ _ _ := trivial
  inner h name fixed := h.child? name (fixed_of_fixedNames name fixed)
  each h name fixed _ := forall₂_zipIdx (h.named name (fixed_of_fixedNames name fixed)) 0 0

/-! ### Nodes with siblings inside -/

namespace Scope.Reordered

variable {s s' : Scope} (h : s.Reordered s') {α : Type}

include h

/-- **Siblings are read alike in any order**: those of one name that a container holds. -/
theorem readEach_siblings {β : Type} {R : α → β → Prop} {read : Scope → Except DocumentFault α}
    {read' : Scope → Except DocumentFault β} (step container name : String)
    (fixed : Fixed container) (moves : name ∈ siblingsIn container)
    (each : ∀ {t t' : Scope}, t.Reordered t' → Alike R (read t) (read' t')) :
    Alike (Shuffled R) (s.readEach step read (containedElements s.element container name))
      (s'.readEach step read' (containedElements s'.element container name)) := by
  have shuffled : Shuffled Element.Reordered (containedElements s.element container name)
      (containedElements s'.element container name) := by
    unfold containedElements
    rcases optionRel_iff.mp (h.child? container fixed) with ⟨left, right⟩ | ⟨e, e', left, right, r⟩
    · rw [left, right]
      exact ⟨[], .nil, .nil⟩
    · rw [left, right]
      exact r.named_shuffled (Element.name_of_child? left ▸ moves)
  exact Alike.mapM (shuffled.zipIdx 0 0) fun ⟨_, _⟩ ⟨_, _⟩ r => each r

theorem readRegister : Alike Register.Reordered (readRegister s) (readRegister s') := by
  have blind := reordered_indistinct
  unfold Description.readRegister
  rw [blind.attribute? h]
  refine (blind.derivableWord h (by decide) _).alike.bind_eq fun addressOffset => ?_
  refine (h.readEach_siblings _ _ _ (by decide) (by decide) fun r => (blind.readField r).alike).bind
    fun fields fields' shuffled => ?_
  refine (blind.required h (by decide)).alike.bind_eq fun name => ?_
  refine (blind.readProperties h).alike.bind_eq fun properties => ?_
  refine (blind.readDimension h).alike.bind_eq fun dimension => ?_
  refine (blind.value? h (by decide) _).alike.bind_eq fun writeEffect => ?_
  refine (blind.readWriteConstraint h).alike.bind_eq fun writeConstraint => ?_
  refine (blind.value? h (by decide) _).alike.bind_eq fun readEffect => ?_
  rw [blind.prose? h (by decide), blind.text? h "displayName" (by decide),
    blind.text? h "alternateGroup" (by decide), blind.text? h "alternateRegister" (by decide)]
  exact .ok ⟨fields', shuffled.perm, rfl⟩

end Scope.Reordered

/-! ### Registers and clusters -/

theorem nodeElements_shuffled {e e' : Element} (h : e.Reordered e')
    (holds : siblingsIn e.name = ["register", "cluster"]) :
    Shuffled Element.Reordered (nodeElements e.nodes) (nodeElements e'.nodes) := by
  have listed (nodes : List Markup.Node) : nodeElements nodes =
      (nodes.filter (Markup.Node.isSibling e.name)).filterMap Markup.Node.element? := by
    rw [nodeElements, Element.ofNodes, List.filter_filterMap, List.filterMap_filter]
    congr 1
    funext n
    cases n with
    | text _ => rfl
    | aside => rfl
    | element tag nodes =>
        rw [Markup.Node.isSibling, holds]
        by_cases register : tag.name = "register"
        · simp [Markup.Node.element?, Element.name, register]
        · by_cases cluster : tag.name = "cluster"
          · simp [Markup.Node.element?, Element.name, cluster]
          · simp [Markup.Node.element?, Element.name, register, cluster]
  rcases h.inside.2 with ⟨plain, -⟩ | ⟨-, -, siblings⟩
  · rw [plain] at holds
    cases holds
  · rw [listed, listed]
    exact siblings.filterMap fun _ _ r => r.element?

/-- **Registers and clusters are read alike in any order**, when each of them is.  The numbers by
which their places are told do not matter for what is read. -/
theorem readItems_alike {e e' : Element} (h : e.Reordered e')
    (holds : siblingsIn e.name = ["register", "cluster"]) (path path' : List Step)
    (each : ∀ n ∈ e.nodes, ∀ c, n.element? = some c → (c.name = "register" ∨ c.name = "cluster") →
      ∀ c' p p', c.Reordered c' → Alike Item.Reordered (readNode ⟨c, p⟩) (readNode ⟨c', p'⟩)) :
    Alike (Shuffled Item.Reordered) (readItems path 0 e.nodes) (readItems path' 0 e'.nodes) := by
  rw [readItems_eq, readItems_eq]
  -- The numbers are those of the places that faults name, so partners need not share them.
  refine Alike.mapM ((nodeElements_shuffled h holds).members.zipIdx 0 0) ?_
  rintro ⟨c, k⟩ ⟨c', k'⟩ ⟨hc, -, r⟩
  obtain ⟨listed, kind⟩ := List.mem_filter.mp hc
  obtain ⟨n, hn, found⟩ := List.mem_filterMap.mp listed
  refine each n hn c found ?_ c' _ _ r
  simpa using kind

/-- **A register or cluster is read alike in any order**, by induction over its node. -/
theorem readNode_alike (n : Markup.Node) : ∀ c, n.element? = some c →
    (c.name = "register" ∨ c.name = "cluster") → ∀ c' p p', c.Reordered c' →
      Alike Item.Reordered (readNode ⟨c, p⟩) (readNode ⟨c', p'⟩) := by
  induction n using Markup.Node.induct with
  | text _ => exact fun _ found => nomatch found
  | aside => exact fun _ found => nomatch found
  | element tag nodes ih =>
      rintro c found kind c' p p' r
      obtain rfl := Option.some.inj found
      have scope : Scope.Reordered ⟨⟨tag, nodes⟩, p⟩ ⟨c', p'⟩ := r
      unfold readNode
      dsimp only
      rw [← r.inside.1.name]
      split
      · exact scope.readRegister.bind fun r r' reordered => .ok (.register reordered)
      · next other =>
        have holds : siblingsIn (Element.name ⟨tag, nodes⟩) = ["register", "cluster"] := by
          rw [kind.resolve_left other]
          rfl
        refine (reordered_indistinct.readClusterInfo scope).alike.bind_eq fun info => ?_
        refine (readItems_alike r holds p p' ih).bind fun children children' shuffled => ?_
        obtain ⟨between, pairs, perm⟩ := shuffled
        exact .ok (.cluster pairs perm)

/-! ### Peripherals and devices -/

namespace Scope.Reordered

variable {s s' : Scope} (h : s.Reordered s')

include h

theorem readPeripheral : Alike Peripheral.Reordered (readPeripheral s) (readPeripheral s') := by
  have blind := reordered_indistinct
  unfold Description.readPeripheral
  rw [blind.attribute? h]
  refine (blind.derivableWord h (by decide) _).alike.bind_eq fun baseAddress => ?_
  refine (blind.readEach h _ (by decide) blind.readAddressBlock).alike.bind_eq fun blocks => ?_
  refine (blind.readEach h _ (by decide) blind.readInterrupt).alike.bind_eq fun interrupts => ?_
  -- Only here siblings are read; a peripheral without registers has none in either order.
  have items : Alike (Shuffled Item.Reordered)
      (readItems s.path 0 (((s.element.child? "registers").map (·.nodes)).getD []))
      (readItems s'.path 0 (((s'.element.child? "registers").map (·.nodes)).getD [])) := by
    rcases optionRel_iff.mp (h.child? "registers" (by decide)) with
      ⟨left, right⟩ | ⟨e, e', left, right, r⟩
    · rw [left, right]
      exact .ok ⟨[], .nil, .nil⟩
    · rw [left, right]
      refine readItems_alike r ?_ _ _ fun n _ => readNode_alike n
      rw [Element.name_of_child? left]
      rfl
  refine items.bind fun children children' shuffled => ?_
  refine (blind.required h (by decide)).alike.bind_eq fun name => ?_
  refine (blind.readProperties h).alike.bind_eq fun properties => ?_
  refine (blind.readDimension h).alike.bind_eq fun dimension => ?_
  rw [blind.prose? h (by decide), blind.text? h "version" (by decide),
    blind.text? h "groupName" (by decide), blind.text? h "prependToName" (by decide),
    blind.text? h "appendToName" (by decide)]
  exact .ok ⟨children', shuffled, rfl⟩

theorem readDevice : Alike Device.Reordered (readDevice s) (readDevice s') := by
  have blind := reordered_indistinct
  unfold Description.readDevice
  refine (h.readEach_siblings _ _ _ (by decide) (by decide) fun r => readPeripheral r).bind
    fun peripherals peripherals' shuffled => ?_
  refine (blind.required h (by decide)).alike.bind_eq fun name => ?_
  refine (blind.word? h (by decide)).alike.bind_eq fun addressUnitBits => ?_
  refine (blind.word? h (by decide)).alike.bind_eq fun width => ?_
  refine (blind.readProperties h).alike.bind_eq fun properties => ?_
  rw [blind.prose? h (by decide), blind.text? h "vendor" (by decide),
    blind.text? h "version" (by decide)]
  exact .ok ⟨peripherals', shuffled, rfl⟩

end Scope.Reordered

/-- **Two orders of a document are two orders of one description**, or no description. -/
theorem ofElement_alike {root root' : Element} (h : root.Reordered root') :
    Alike Device.Reordered (ofElement root) (ofElement root') := by
  unfold ofElement
  rw [← h.name_eq]
  split
  · have scope : Scope.Reordered ⟨root, [.only "device"]⟩ ⟨root', [.only "device"]⟩ := h
    exact scope.readDevice
  · exact .error

end ChipMap.Description
