import ChipMap.Proofs.Description.Readers
import ChipMap.Proofs.Markup.Sifted

/-!
# Unknown elements

A reader looks for children of certain names.  **An element of another name makes no difference to
what a document is read as** (`ofElement_unknown`), wherever it stands among the children of an
element that holds other elements, and whatever is inside it: the description stays the same, or the
fault does, but for the place in the text.

### What is load-bearing

Two documents are compared through what is left of them when unknown elements and texts between
elements are sifted out (`keepsKnown`).  Elements whose text is read lose nothing, because none of
them is one that holds other elements (`keepsKnown_value`).  Of registers and clusters none is lost,
so each keeps its number, and with it the path in its faults (`readItems_known`).

An insertion may be made at any depth and in the middle of a text (`Inserted`).  It is undone by
sifting wherever it was made, so the comparison itself knows nothing of insertions; and it may shift
the places of all tags behind it, which sifting forgets.

Unknown means unknown everywhere: a name that is looked up in some element is known in all of them.
For a name that is looked up elsewhere only, nothing is claimed here.
-/

namespace ChipMap.Description

open Markup (Element NodeKind Sieve)

/-! ### Names -/

/-- The names of the elements inside a device that hold other elements. -/
def nodeNames : List String :=
  ["peripherals", "peripheral", "registers", "cluster", "register", "fields", "field"] ++ fixedNames

/-- The names of the elements that hold other elements.  Their own text is never read. -/
def containerNames : List String := "device" :: nodeNames

/-- **The names that are looked up** among the children of an element: those of values, and those of
nodes. -/
def lookedUpNames : List String := valueNames ++ nodeNames

/-- An element that holds other elements keeps those of names that are looked up; all others keep
what they have. -/
def keepsKnown : Sieve := fun parent kind =>
  !containerNames.contains parent ||
    match kind with
    | .element name => lookedUpNames.contains name
    | _ => false

theorem keepsKnown_lookedUp {name : String} (h : name ∈ lookedUpNames) (parent : String) :
    keepsKnown parent (.element name) = true := by
  simp [keepsKnown, h]

/-- An element whose text is read keeps all its children. -/
theorem keepsKnown_value {name : String} (h : name ∈ valueNames) (kind : NodeKind) :
    keepsKnown name kind = true := by
  have apart : ∀ name ∈ valueNames, name ∉ containerNames := by decide
  simp [keepsKnown, apart name h]

theorem lookedUp_of_value {name : String} (h : name ∈ valueNames) : name ∈ lookedUpNames :=
  List.mem_append_left _ h

theorem lookedUp_of_fixed {name : String} (h : name ∈ fixedNames) : name ∈ lookedUpNames :=
  List.mem_append_right _ (List.mem_append_right _ h)

/-! ### Elements with the same known children -/

/-- **Elements of which the same is left** without what is not looked up.  This is an equivalence,
and it says nothing of places. -/
def SameKnown (e e' : Element) : Prop := e.sifted keepsKnown = e'.sifted keepsKnown

theorem forall₂_zipIdx_of_map_eq {α β : Type} {f : α → β} {xs ys : List α}
    (same : xs.map f = ys.map f) :
    List.Forall₂ (fun a b => f a.1 = f b.1 ∧ a.2 = b.2) xs.zipIdx ys.zipIdx := by
  have numbered := congrArg List.zipIdx same
  rw [List.zipIdx_map, List.zipIdx_map, ← List.forall₂_eq_eq_eq, List.forall₂_map_left_iff,
    List.forall₂_map_right_iff] at numbered
  exact numbered.imp fun _ _ pair => Prod.mk.inj pair

namespace SameKnown

variable {e e' : Element} (h : SameKnown e e')

include h

theorem name_eq : e.name = e'.name := by
  rw [← Element.name_sifted keepsKnown e, h, Element.name_sifted]

theorem map_named_eq (name : String) (lookedUp : name ∈ lookedUpNames) :
    (e.named name).map (Element.sifted keepsKnown) =
      (e'.named name).map (Element.sifted keepsKnown) := by
  rw [← Element.named_sifted e (keepsKnown_lookedUp lookedUp _), h,
    Element.named_sifted e' (keepsKnown_lookedUp lookedUp _)]

/-- The first child of a name that is looked up. -/
theorem child? (name : String) (lookedUp : name ∈ lookedUpNames) :
    Option.Rel SameKnown (e.child? name) (e'.child? name) := by
  have same : (e.child? name).map (Element.sifted keepsKnown) =
      (e'.child? name).map (Element.sifted keepsKnown) := by
    rw [← Element.child?_sifted e (keepsKnown_lookedUp lookedUp _), h,
      Element.child?_sifted e' (keepsKnown_lookedUp lookedUp _)]
  generalize e.child? name = c, e'.child? name = c' at same
  cases c with
  | none =>
      cases c' with
      | none => exact .none
      | some _ => cases same
  | some _ =>
      cases c' with
      | none => cases same
      | some _ => exact .some (Option.some.inj same)

/-- An element whose text is read has the same text. -/
theorem text_eq (value : e.name ∈ valueNames) : e.text = e'.text := by
  rw [← Element.text_sifted e (keepsKnown_value value), h,
    Element.text_sifted e' (keepsKnown_value (h.name_eq ▸ value))]

/-- The elements of a name inside the first one of another name. -/
theorem map_containedElements_eq (container name : String) (outer : container ∈ lookedUpNames)
    (lookedUp : name ∈ lookedUpNames) :
    (containedElements e container name).map (Element.sifted keepsKnown) =
      (containedElements e' container name).map (Element.sifted keepsKnown) := by
  unfold containedElements
  rcases optionRel_iff.mp (h.child? container outer) with ⟨left, right⟩ | ⟨_, _, left, right, inner⟩
  · rw [left, right]
  · rw [left, right]
    exact inner.map_named_eq name lookedUp

end SameKnown

/-! ### Scopes -/

/-- Locations of one path, wherever in the text they are.  Their numbers among siblings are part of
the path. -/
def SamePath (l l' : Location) : Prop := l.path = l'.path

/-- **Scopes of one path whose elements have the same known children.** -/
structure Scope.SameKnown (s s' : Scope) : Prop where
  element : Description.SameKnown s.element s'.element
  path : s.path = s'.path

theorem Scope.SameKnown.inner {s s' : Scope} (h : s.SameKnown s') {e e' : Element}
    (same : Description.SameKnown e e') (step : Step) :
    (s.inner e step).SameKnown (s'.inner e' step) :=
  ⟨same, congrArg (· ++ [step]) h.path⟩

/-- **Readers do not tell such scopes apart**, but for the places of tags. -/
theorem sameKnown_indistinct : Indistinct SamePath Scope.SameKnown where
  attribute? {s s'} h name := by
    rw [Scope.attribute?, ← Element.attribute?_sifted keepsKnown, h.element,
      Element.attribute?_sifted, ← Scope.attribute?]
  text? {s s'} h name value := by
    unfold Scope.text?
    rcases optionRel_iff.mp (h.element.child? name (lookedUp_of_value value)) with
      ⟨left, right⟩ | ⟨_, _, left, right, inner⟩
    · rw [left, right]
    · rw [left, right, Option.map_some, Option.map_some,
        inner.text_eq (Element.name_of_child? left ▸ value)]
  location {s s'} h name _ := congrArg (· ++ [Step.only name]) h.path
  inner {s s'} h name fixed := by
    rcases optionRel_iff.mp (h.element.child? name (lookedUp_of_fixed fixed)) with
      ⟨left, right⟩ | ⟨_, _, left, right, inner⟩
    · rw [left, right]
      exact .none
    · rw [left, right]
      exact .some (h.inner inner _)
  each {s s'} h name fixed step := by
    refine (forall₂_zipIdx_of_map_eq (h.element.map_named_eq name (lookedUp_of_fixed fixed))).imp ?_
    rintro ⟨_, _⟩ ⟨_, _⟩ ⟨inner, rfl⟩
    exact h.inner inner _

/-- **Elements with the same known children are read alike**, each with its number. -/
theorem readEach_known {s s' : Scope} (h : s.SameKnown s') {α : Type}
    {read : Scope → Except DocumentFault α}
    (each : ∀ {t t' : Scope}, t.SameKnown t' → Agrees SamePath Eq (read t) (read t'))
    {es es' : List Element}
    (same : es.map (Element.sifted keepsKnown) = es'.map (Element.sifted keepsKnown))
    (step : String) :
    Agrees SamePath Eq (s.readEach step read es) (s'.readEach step read es') := by
  refine .of_forall₂ (.mapM_forall₂ (forall₂_zipIdx_of_map_eq same) ?_)
  rintro ⟨_, _⟩ ⟨_, _⟩ ⟨inner, rfl⟩
  exact each (h.inner inner _)

/-! ### Nodes -/

theorem readRegister_known {s s' : Scope} (h : s.SameKnown s') :
    Agrees SamePath Eq (readRegister s) (readRegister s') := by
  have blind := sameKnown_indistinct
  have inside := h.element.map_containedElements_eq "fields" "field" (by decide) (by decide)
  unfold readRegister
  rw [blind.attribute? h]
  refine (blind.derivableWord h (by decide) _).bind_eq fun addressOffset => ?_
  refine (readEach_known h blind.readField inside _).bind_eq fun fields => ?_
  refine (blind.required h (by decide)).bind_eq fun name => ?_
  refine (blind.readProperties h).bind_eq fun properties => ?_
  refine (blind.readDimension h).bind_eq fun dimension => ?_
  refine (blind.value? h (by decide) _).bind_eq fun writeEffect => ?_
  refine (blind.readWriteConstraint h).bind_eq fun writeConstraint => ?_
  refine (blind.value? h (by decide) _).bind_eq fun readEffect => ?_
  rw [blind.prose? h (by decide), blind.text? h "displayName" (by decide),
    blind.text? h "alternateGroup" (by decide), blind.text? h "alternateRegister" (by decide)]
  exact .ok rfl

/-- Registers and clusters are looked up. -/
theorem nodeElements_sifted (parent : String) (nodes : List Markup.Node) :
    nodeElements (Markup.siftedNodes keepsKnown parent nodes) =
      (nodeElements nodes).map (Element.sifted keepsKnown) := by
  refine Markup.ofNodes_sifted keepsKnown (fun name => name == "register" || name == "cluster")
    (fun name sought => ?_) nodes
  refine keepsKnown_lookedUp ?_ parent
  rcases Bool.or_eq_true_iff.mp sought with register | cluster
  · rw [eq_of_beq register]
    decide
  · rw [eq_of_beq cluster]
    decide

/-- **Registers and clusters keep their numbers**, and are read alike when each of them is.  The
numbers are positions in a list that sifting maps entry by entry. -/
theorem readItems_known {e e' : Element} (h : SameKnown e e') (path : List Step)
    (each : ∀ n ∈ e.nodes, ∀ s s' : Scope, n.element? = some s.element → s.SameKnown s' →
      Agrees SamePath Eq (readNode s) (readNode s')) :
    Agrees SamePath Eq (readItems path 0 e.nodes) (readItems path 0 e'.nodes) := by
  have same : (nodeElements e.nodes).map (Element.sifted keepsKnown) =
      (nodeElements e'.nodes).map (Element.sifted keepsKnown) := by
    rw [← nodeElements_sifted e.name, ← nodeElements_sifted e'.name]
    exact congrArg (fun x => nodeElements x.nodes) h
  rw [readItems_eq, readItems_eq]
  refine .of_forall₂ (.mapM_forall₂ (forall₂_members (forall₂_zipIdx_of_map_eq same)) ?_)
  rintro ⟨c, k⟩ ⟨c', _⟩ ⟨listed, -, inner, rfl⟩
  obtain ⟨child, -⟩ := List.mem_filter.mp (List.fst_mem_of_mem_zipIdx listed)
  obtain ⟨n, hn, own⟩ := List.mem_filterMap.mp child
  exact each n hn _ _ own ⟨inner, rfl⟩

/-- **A register or cluster is read alike**, by induction over its node.  A register holds no
further nodes of this kind. -/
theorem readNode_known (n : Markup.Node) : ∀ s s' : Scope, n.element? = some s.element →
    s.SameKnown s' → Agrees SamePath Eq (readNode s) (readNode s') := by
  induction n using Markup.Node.induct with
  | text _ => exact fun _ _ found => nomatch found
  | aside => exact fun _ _ found => nomatch found
  | element tag nodes ih =>
      rintro ⟨e, path⟩ ⟨e', path'⟩ found h
      obtain rfl := Option.some.inj found
      obtain rfl : path = path' := h.path
      have name : tag.name = e'.tag.name := h.element.name_eq
      unfold readNode
      dsimp only
      rw [← name]
      split
      · exact (readRegister_known h).bind_eq fun r => .ok rfl
      · refine (sameKnown_indistinct.readClusterInfo h).bind_eq fun info => ?_
        exact (readItems_known h.element path ih).bind_eq fun children => .ok rfl

theorem readPeripheral_known {s s' : Scope} (h : s.SameKnown s') :
    Agrees SamePath Eq (readPeripheral s) (readPeripheral s') := by
  have blind := sameKnown_indistinct
  have items : Agrees SamePath Eq
      (readItems s.path 0 (((s.element.child? "registers").map (·.nodes)).getD []))
      (readItems s'.path 0 (((s'.element.child? "registers").map (·.nodes)).getD [])) := by
    rw [← h.path]
    rcases optionRel_iff.mp (h.element.child? "registers" (by decide)) with
      ⟨left, right⟩ | ⟨_, _, left, right, inner⟩
    · rw [left, right]
      exact .ok rfl
    · rw [left, right]
      exact readItems_known inner s.path fun n _ => readNode_known n
  unfold readPeripheral
  rw [blind.attribute? h]
  refine (blind.derivableWord h (by decide) _).bind_eq fun baseAddress => ?_
  refine (blind.readEach h _ (by decide) blind.readAddressBlock).bind_eq fun blocks => ?_
  refine (blind.readEach h _ (by decide) blind.readInterrupt).bind_eq fun interrupts => ?_
  refine items.bind_eq fun children => ?_
  refine (blind.required h (by decide)).bind_eq fun name => ?_
  refine (blind.readProperties h).bind_eq fun properties => ?_
  refine (blind.readDimension h).bind_eq fun dimension => ?_
  rw [blind.prose? h (by decide), blind.text? h "version" (by decide),
    blind.text? h "groupName" (by decide), blind.text? h "prependToName" (by decide),
    blind.text? h "appendToName" (by decide)]
  exact .ok rfl

theorem readDevice_known {s s' : Scope} (h : s.SameKnown s') :
    Agrees SamePath Eq (readDevice s) (readDevice s') := by
  have blind := sameKnown_indistinct
  have inside := h.element.map_containedElements_eq "peripherals" "peripheral" (by decide)
    (by decide)
  refine (readEach_known h readPeripheral_known inside _).bind_eq fun peripherals => ?_
  refine (blind.required h (by decide)).bind_eq fun name => ?_
  refine (blind.word? h (by decide)).bind_eq fun addressUnitBits => ?_
  refine (blind.word? h (by decide)).bind_eq fun width => ?_
  refine (blind.readProperties h).bind_eq fun properties => ?_
  rw [blind.prose? h (by decide), blind.text? h "vendor" (by decide),
    blind.text? h "version" (by decide)]
  exact .ok rfl

/-- **Documents with the same known elements are read alike**, but for the places of tags. -/
theorem ofElement_known {root root' : Element} (h : SameKnown root root') :
    Agrees SamePath Eq (ofElement root) (ofElement root') := by
  unfold ofElement
  rw [← h.name_eq]
  split
  · exact readDevice_known ⟨h, rfl⟩
  · exact .error (.unexpectedRoot _)

/-! ### Insertions -/

/-- **A node with an element inserted**: anywhere among the children of an element that holds other
elements, at any depth. -/
inductive Inserted (u : Element) : Markup.Node → Markup.Node → Prop
  /-- Between two children. -/
  | between {tag : Markup.Tag} {before after : List Markup.Node} : tag.name ∈ containerNames →
    Inserted u (.element tag (before ++ after)) (.element tag (before ++ u.node :: after))
  /-- Inside a text, which becomes two. -/
  | inText {tag : Markup.Tag} {before after : List Markup.Node} {a b : String} :
    tag.name ∈ containerNames →
    Inserted u (.element tag (before ++ .text (a ++ b) :: after))
      (.element tag (before ++ .text a :: u.node :: .text b :: after))
  /-- Inside a child. -/
  | deeper {tag : Markup.Tag} {before after : List Markup.Node} {n n' : Markup.Node} :
    Inserted u n n' →
      Inserted u (.element tag (before ++ n :: after)) (.element tag (before ++ n' :: after))

/-- **Nothing is left of an unknown element.**  The cases are those of the insertion, and the last
one is the induction. -/
theorem Inserted.sifted_eq {u : Element} (unknown : u.name ∉ lookedUpNames) {n n' : Markup.Node}
    (h : Inserted u n n') : n'.sifted keepsKnown = n.sifted keepsKnown := by
  have text {parent : String} (container : parent ∈ containerNames) (content : String) :
      keepsKnown parent (Markup.Node.text content).kind = false := by
    simp [keepsKnown, Markup.Node.kind, container]
  have dropped {parent : String} (container : parent ∈ containerNames) :
      keepsKnown parent u.node.kind = false := by
    have kind : u.node.kind = .element u.name := rfl
    simp [keepsKnown, kind, container, unknown]
  induction h with
  | between container =>
      rw [Markup.Node.sifted, Markup.Node.sifted, Markup.siftedNodes_append,
        Markup.siftedNodes_append, Markup.siftedNodes_cons_of_not _ (dropped container)]
  | inText container =>
      rw [Markup.Node.sifted, Markup.Node.sifted, Markup.siftedNodes_append,
        Markup.siftedNodes_append, Markup.siftedNodes_cons_of_not _ (text container _),
        Markup.siftedNodes_cons_of_not _ (dropped container),
        Markup.siftedNodes_cons_of_not _ (text container _),
        Markup.siftedNodes_cons_of_not _ (text container _)]
  | deeper _ ih =>
      rw [Markup.Node.sifted, Markup.Node.sifted, Markup.siftedNodes_append,
        Markup.siftedNodes_append, Markup.siftedNodes_cons_congr _ ih]

/-- **Unknown elements are passed over**: with an element inserted whose name is never looked up, a
document is read as before, whatever becomes of the places of its tags. -/
theorem ofElement_unknown {u root root' : Element} {grown : Markup.Node}
    (unknown : u.name ∉ lookedUpNames) (inserted : Inserted u root.node grown)
    (same : root'.node.placeless = grown.placeless) :
    Agrees SamePath Eq (ofElement root) (ofElement root') := by
  have left : (root.sifted keepsKnown).node = (root'.sifted keepsKnown).node := by
    rw [Element.node_sifted, Element.node_sifted, ← inserted.sifted_eq unknown,
      ← Markup.Node.sifted_placeless _ grown, ← same, Markup.Node.sifted_placeless]
  obtain ⟨tag, nodes⟩ := Markup.Node.element.inj left
  exact ofElement_known (congrArg₂ Element.mk tag nodes)

/-! ### An extension of a vendor -/

/-- A tag without attributes on the first line. -/
def tagAt (column : Nat) (name : String) : Markup.Tag := ⟨name, [], ⟨1, column⟩⟩

/-- An element with one text. -/
def valueAt (column : Nat) (name text : String) : Markup.Node :=
  .element (tagAt column name) [.text text]

/-- A register that begins at a column. -/
def registerAt (column : Nat) : Markup.Node :=
  .element (tagAt column "register")
    [valueAt (column + 10) "name" "R", valueAt (column + 24) "addressOffset" "0"]

/-- A device whose only peripheral holds some registers. -/
def hosting (registers : List Markup.Node) : Element where
  tag := tagAt 1 "device"
  nodes :=
    [valueAt 9 "name" "D",
      .element (tagAt 23 "peripherals")
        [.element (tagAt 36 "peripheral")
          [valueAt 48 "name" "P", valueAt 62 "baseAddress" "0",
            .element (tagAt 90 "registers") registers]]]

/-- An extension that holds a register. -/
def extension : Element := ⟨tagAt 101 "vendorExtensions", [registerAt 119]⟩

theorem hosting_inserted (registers : List Markup.Node) :
    Inserted extension (hosting registers).node (hosting (extension.node :: registers)).node := by
  have inside : Inserted extension (.element (tagAt 90 "registers") ([] ++ registers))
      (.element (tagAt 90 "registers") ([] ++ extension.node :: registers)) := .between (by decide)
  have block := @Inserted.deeper extension (tagAt 36 "peripheral")
    [valueAt 48 "name" "P", valueAt 62 "baseAddress" "0"] [] _ _ inside
  have blocks := @Inserted.deeper extension (tagAt 23 "peripherals") [] [] _ _ block
  exact @Inserted.deeper extension (tagAt 1 "device") [valueAt 9 "name" "D"] [] _ _ blocks

/-- The register behind the extension is read, and the one inside it is not. -/
theorem ofElement_unknown_extension :
    (∃ d, ofElement (hosting [registerAt 101]) = .ok d) ∧ extension.name ∉ lookedUpNames ∧
      Agrees SamePath Eq (ofElement (hosting [registerAt 101]))
        (ofElement (hosting [extension.node, registerAt 202])) := by
  have unknown : extension.name ∉ lookedUpNames := by decide
  have inserted := hosting_inserted [registerAt 101]
  exact ⟨⟨_, rfl⟩, unknown, ofElement_unknown unknown inserted rfl⟩

end ChipMap.Description
