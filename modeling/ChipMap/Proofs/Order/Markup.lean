import ChipMap.Description.Scope
import ChipMap.Proofs.Description.Decoded
import ChipMap.Proofs.Order.Siblings

/-!
# Documents in another order

Two documents that **differ in the order of siblings only** have `Reordered` trees: inside an
element that holds siblings these may stand in any order, and all else is the same element by
element.  The blanks around siblings may move with them, and so may the places of the tags.

### What is load-bearing

What is read of an element is the first child of a name, and the text of such a child.  Only
elements that hold siblings lose their texts here, and nothing reads these; a child that is no
sibling stays the first of its name (`Element.Reordered.child?`).

A tag keeps its name and attributes but not its place (`Tag.Same`), since a place is a line and a
column of the text.  Two texts that write the same siblings in another order therefore have
reordered trees whatever their lines are.
-/

namespace ChipMap.Markup

/-- The elements that stand in any order inside an element of a name.  All other names hold children
that are told apart by their names alone. -/
def siblingsIn (parent : String) : List String :=
  if parent = "peripherals" then ["peripheral"]
  else if parent = "registers" ∨ parent = "cluster" then ["register", "cluster"]
  else if parent = "fields" then ["field"]
  else []

/-- A node that is one of the siblings inside an element of a name. -/
def Node.isSibling (parent : String) : Node → Bool
  | .element tag _ => (siblingsIn parent).contains tag.name
  | _ => false

/-- A node that is an element, but none of the siblings inside an element of a name. -/
def Node.isOther (parent : String) : Node → Bool
  | .element tag _ => !(siblingsIn parent).contains tag.name
  | _ => false

@[simp] theorem Node.isSibling_text (parent content : String) :
    (Node.text content).isSibling parent = false := rfl

@[simp] theorem Node.isOther_text (parent content : String) :
    (Node.text content).isOther parent = false := rfl

/-- Two start tags in two places. -/
structure Tag.Same (tag tag' : Tag) : Prop where
  name : tag.name = tag'.name
  attributes : tag.attributes = tag'.attributes

/-- **A node in another order of siblings.** -/
inductive Node.Reordered : Node → Node → Prop
  | text (content : String) : Node.Reordered (.text content) (.text content)
  | aside : Node.Reordered .aside .aside
  /-- An element that holds no siblings: its children stay where they are. -/
  | plain {tag tag' : Tag} {nodes nodes' : List Node} : tag.Same tag' → siblingsIn tag.name = [] →
    List.Forall₂ Node.Reordered nodes nodes' →
      Node.Reordered (.element tag nodes) (.element tag' nodes')
  /-- An element that holds siblings, which stand in any order. -/
  | siblings {tag tag' : Tag} {nodes nodes' between : List Node} : tag.Same tag' →
    siblingsIn tag.name ≠ [] →
    List.Forall₂ Node.Reordered (nodes.filter (Node.isOther tag.name))
      (nodes'.filter (Node.isOther tag.name)) →
    List.Forall₂ Node.Reordered (nodes.filter (Node.isSibling tag.name)) between →
    between.Perm (nodes'.filter (Node.isSibling tag.name)) →
      Node.Reordered (.element tag nodes) (.element tag' nodes')

/-- **An element in another order of siblings**, at any depth below it. -/
def Element.Reordered (e e' : Element) : Prop :=
  Node.Reordered (.element e.tag e.nodes) (.element e'.tag e'.nodes)

theorem Node.Reordered.element? {n n' : Node} (h : n.Reordered n') :
    Option.Rel Element.Reordered n.element? n'.element? := by
  cases id h with
  | text _ => exact .none
  | aside => exact .none
  | plain _ _ _ => exact .some h
  | siblings _ _ _ _ _ => exact .some h

/-- A node that is an element of a name. -/
def Node.isNamed (name : String) : Node → Bool
  | .element tag _ => tag.name == name
  | _ => false

theorem Node.Reordered.isNamed {n n' : Node} (h : n.Reordered n') (name : String) :
    n.isNamed name = n'.isNamed name := by
  cases h with
  | text _ => rfl
  | aside => rfl
  | plain same _ _ => rw [Node.isNamed, Node.isNamed, same.name]
  | siblings same _ _ _ _ => rw [Node.isNamed, Node.isNamed, same.name]

theorem Node.Reordered.isSibling {n n' : Node} (h : n.Reordered n') (parent : String) :
    n.isSibling parent = n'.isSibling parent := by
  cases h with
  | text _ => rfl
  | aside => rfl
  | plain same _ _ => rw [Node.isSibling, Node.isSibling, same.name]
  | siblings same _ _ _ _ => rw [Node.isSibling, Node.isSibling, same.name]

theorem Node.holds_of_isSibling {n : Node} {parent : String} (h : n.isSibling parent = true) :
    siblingsIn parent ≠ [] := by
  cases n with
  | text _ => cases h
  | aside => cases h
  | element tag _ =>
      intro none
      rw [Node.isSibling, none] at h
      cases h

theorem Node.isOther_of_isSibling {n : Node} {parent : String} (h : n.isSibling parent = true) :
    n.isOther parent = false := by
  cases n with
  | text _ => rfl
  | aside => rfl
  | element tag _ => exact congrArg not h

/-- Nodes of a name are among those that include every element of the name. -/
theorem filter_isNamed {name : String} {p : Node → Bool}
    (h : ∀ {tag nodes}, tag.name = name → p (.element tag nodes) = true) (nodes : List Node) :
    (nodes.filter p).filter (Node.isNamed name) = nodes.filter (Node.isNamed name) := by
  rw [List.filter_filter]
  refine List.filter_congr fun n _ => ?_
  cases n with
  | text _ => rfl
  | aside => rfl
  | element tag nodes =>
      by_cases named : tag.name = name
      · rw [h named, Bool.and_true]
      · simp [Node.isNamed, named]

/-- Nodes of a name that is none of the siblings are among the others. -/
theorem filter_others {parent name : String} (fixed : name ∉ siblingsIn parent)
    (nodes : List Node) :
    (nodes.filter (Node.isOther parent)).filter (Node.isNamed name) =
      nodes.filter (Node.isNamed name) :=
  filter_isNamed (fun named => by simp [Node.isOther, named, fixed]) nodes

/-- Nodes of a name of siblings are among the siblings. -/
theorem filter_siblings {parent name : String} (moves : name ∈ siblingsIn parent)
    (nodes : List Node) :
    (nodes.filter (Node.isSibling parent)).filter (Node.isNamed name) =
      nodes.filter (Node.isNamed name) :=
  filter_isNamed (fun named => by simp [Node.isSibling, named, moves]) nodes

namespace Element

theorem named_eq (e : Element) (name : String) :
    e.named name = (e.nodes.filter (Node.isNamed name)).filterMap Node.element? := by
  rw [named, children, ofNodes, List.filter_filterMap, List.filterMap_filter]
  congr 1
  funext n
  cases n with
  | text _ => rfl
  | aside => rfl
  | element tag nodes =>
      by_cases hit : tag.name = name
      · simp [Node.isNamed, Node.element?, Element.name, hit]
      · simp [Node.isNamed, Node.element?, Element.name, hit]

namespace Reordered

variable {e e' : Element}

theorem inside (h : e.Reordered e') : e.tag.Same e'.tag ∧
    (siblingsIn e.name = [] ∧ List.Forall₂ Node.Reordered e.nodes e'.nodes ∨
      siblingsIn e.name ≠ [] ∧
        List.Forall₂ Node.Reordered (e.nodes.filter (Node.isOther e.name))
          (e'.nodes.filter (Node.isOther e.name)) ∧
        Shuffled Node.Reordered (e.nodes.filter (Node.isSibling e.name))
          (e'.nodes.filter (Node.isSibling e.name))) := by
  cases h with
  | plain same plain children => exact ⟨same, .inl ⟨plain, children⟩⟩
  | siblings same holds others siblings p => exact ⟨same, .inr ⟨holds, others, _, siblings, p⟩⟩

variable (h : e.Reordered e')

include h

theorem name_eq : e.name = e'.name := h.inside.1.name

theorem attribute?_eq (name : String) : e.attribute? name = e'.attribute? name :=
  congrArg (List.lookup name) h.inside.1.attributes

theorem text_eq (plain : siblingsIn e.name = []) : e.text = e'.text := by
  rcases h.inside.2 with ⟨-, children⟩ | ⟨holds, -⟩
  · unfold text
    generalize e.nodes = nodes, e'.nodes = nodes' at children
    cases children with
    | nil => rfl
    | cons head _ =>
        cases head with
        | text _ => rfl
        | aside => rfl
        | plain _ _ _ => rfl
        | siblings _ _ _ _ _ => rfl
  · exact absurd plain holds

/-- **Children that are no siblings are related one by one.** -/
theorem named_forall₂ {name : String} (fixed : name ∉ siblingsIn e.name) :
    List.Forall₂ Element.Reordered (e.named name) (e'.named name) := by
  have nodes : List.Forall₂ Node.Reordered (e.nodes.filter (Node.isNamed name))
      (e'.nodes.filter (Node.isNamed name)) := by
    have keeps {ns ns' : List Node} (pairs : List.Forall₂ Node.Reordered ns ns') :=
      List.rel_filter (fun {_ _} r => iff_of_eq (congrArg (· = true) (r.isNamed name))) pairs
    rcases h.inside.2 with ⟨-, children⟩ | ⟨-, others, -⟩
    · exact keeps children
    · rw [← filter_others fixed e.nodes, ← filter_others fixed e'.nodes]
      exact keeps others
  rw [named_eq, named_eq]
  exact List.rel_filterMap (fun {_ _} r => r.element?) nodes

/-- **Siblings of one name are related in any order.** -/
theorem named_shuffled {name : String} (moves : name ∈ siblingsIn e.name) :
    Shuffled Element.Reordered (e.named name) (e'.named name) := by
  rcases h.inside.2 with ⟨plain, -⟩ | ⟨-, -, siblings⟩
  · rw [plain] at moves
    cases moves
  · rw [named_eq, named_eq, ← filter_siblings moves e.nodes, ← filter_siblings moves e'.nodes]
    exact (siblings.filter fun _ _ r => r.isNamed name).filterMap fun _ _ r => r.element?

/-- The first child of a name that is none of the siblings. -/
theorem child? {name : String} (fixed : name ∉ siblingsIn e.name) :
    Option.Rel Element.Reordered (e.child? name) (e'.child? name) := by
  rw [child?_eq_head?_named, child?_eq_head?_named]
  have pairs := h.named_forall₂ fixed
  generalize e.named name = es, e'.named name = es' at pairs
  cases pairs with
  | nil => exact .none
  | cons head _ => exact .some head

end Reordered

end Element

end ChipMap.Markup
