import ChipMap.Proofs.Description.Decoded

/-!
# Trees without some of their nodes

A tree is sifted when in every element only the children that are kept stay, and the places of tags
are forgotten.  **A look-up among children goes through sifting when the children it looks for are
kept** (`Element.child?_sifted`).

Two documents say the same when they differ only in nodes that no reader looks at.  To say so, both
are sifted: what is left of them has to be one tree.

### What is load-bearing

Whether a child is kept depends on the name of its parent and on what the child itself is, not on
what is inside it (`Sieve`).  So an element that is kept is kept with the insertions deeper inside
it, and a tree without places is sifted as the tree itself (`Node.sifted_placeless`).
-/

namespace ChipMap.Markup

/-! ### Sifting -/

/-- The kind of a node: text, something that is passed over, or an element of a name.  Comments and
instructions are of the second kind. -/
inductive NodeKind where
  | text
  | aside
  | element (name : String)
deriving DecidableEq, Repr, Inhabited

/-- The kind of a node. -/
def Node.kind : Node → NodeKind
  | .text _ => .text
  | .aside => .aside
  | .element tag _ => .element tag.name

/-- **Which children stay** in an element of a name.  The function is given the name of the parent
and the kind of the child. -/
abbrev Sieve := String → NodeKind → Bool

/-- A tag without its place.  Its name and its attributes stay. -/
def Tag.placeless (tag : Tag) : Tag := { tag with start := .origin }

mutual

/-- A node with the children that are kept, and without the places of tags.  The node itself is
always kept. -/
def Node.sifted (keeps : Sieve) : Node → Node
  | .text content => .text content
  | .aside => .aside
  | .element tag nodes => .element tag.placeless (siftedNodes keeps tag.name nodes)

/-- The children that are kept in an element of a name. -/
def siftedNodes (keeps : Sieve) (parent : String) : List Node → List Node
  | [] => []
  | n :: rest =>
    if keeps parent n.kind then n.sifted keeps :: siftedNodes keeps parent rest
    else siftedNodes keeps parent rest

end

/-- An element with the children that are kept, and without the places of tags.  It is what
`Node.sifted` makes of the node that the element is. -/
def Element.sifted (keeps : Sieve) (e : Element) : Element :=
  ⟨e.tag.placeless, siftedNodes keeps e.name e.nodes⟩

def Element.node (e : Element) : Node := .element e.tag e.nodes

/-- A tree without the places of its tags: it is sifted, and every child is kept. -/
def Node.placeless (n : Node) : Node := n.sifted fun _ _ => true

section Sifting

variable (keeps : Sieve)

@[simp] theorem Element.name_sifted (e : Element) : (e.sifted keeps).name = e.name := rfl

@[simp] theorem Element.attribute?_sifted (e : Element) (name : String) :
    (e.sifted keeps).attribute? name = e.attribute? name := rfl

@[simp] theorem Node.kind_sifted (n : Node) : (n.sifted keeps).kind = n.kind := by
  cases n with
  | text content => rw [sifted]
  | aside => rw [sifted]
  | element tag nodes =>
      rw [sifted]
      rfl

@[simp] theorem Node.element?_sifted (n : Node) :
    (n.sifted keeps).element? = n.element?.map (Element.sifted keeps) := by
  cases n with
  | text content =>
      rw [sifted]
      rfl
  | aside =>
      rw [sifted]
      rfl
  | element tag nodes =>
      rw [sifted]
      rfl

theorem Element.node_sifted (e : Element) : (e.sifted keeps).node = e.node.sifted keeps := by
  rw [node, node, Node.sifted]
  rfl

/-- The children that are kept, each of them sifted.  The recursion that defines them is opened here
only. -/
theorem siftedNodes_eq (parent : String) (nodes : List Node) :
    siftedNodes keeps parent nodes =
      (nodes.filter fun n => keeps parent n.kind).map (Node.sifted keeps) := by
  induction nodes with
  | nil => rw [siftedNodes, List.filter_nil, List.map_nil]
  | cons n rest ih =>
      rw [siftedNodes, ih, List.filter_cons]
      split <;> rfl

@[simp] theorem siftedNodes_append (parent : String) (before after : List Node) :
    siftedNodes keeps parent (before ++ after) =
      siftedNodes keeps parent before ++ siftedNodes keeps parent after := by
  rw [siftedNodes_eq, siftedNodes_eq, siftedNodes_eq, List.filter_append, List.map_append]

/-- A child that is not kept leaves nothing, so it may be inserted anywhere. -/
theorem siftedNodes_cons_of_not {parent : String} {n : Node} (dropped : keeps parent n.kind = false)
    (rest : List Node) : siftedNodes keeps parent (n :: rest) = siftedNodes keeps parent rest := by
  rw [siftedNodes, dropped]
  rfl

/-- Children that are sifted alike leave the same, so one may stand for the other. -/
theorem siftedNodes_cons_congr {n n' : Node} (same : n'.sifted keeps = n.sifted keeps)
    (parent : String) (rest : List Node) :
    siftedNodes keeps parent (n' :: rest) = siftedNodes keeps parent (n :: rest) := by
  have kind : n'.kind = n.kind := by
    rw [← Node.kind_sifted keeps, same, Node.kind_sifted]
  rw [siftedNodes, siftedNodes, kind, same]

/-- **A tree without places is sifted as the tree itself.** -/
theorem Node.sifted_placeless (n : Node) : n.placeless.sifted keeps = n.sifted keeps := by
  unfold placeless
  induction n using Node.induct with
  | text content => rw [sifted]
  | aside => rw [sifted]
  | element tag nodes ih =>
      rw [sifted, sifted, sifted]
      have inside : siftedNodes keeps tag.name (siftedNodes (fun _ _ => true) tag.name nodes) =
          siftedNodes keeps tag.name nodes := by
        induction nodes with
        | nil => rw [siftedNodes]
        | cons n rest others =>
            have later := others fun c hc => ih c (List.mem_cons_of_mem _ hc)
            rw [siftedNodes, if_pos rfl, siftedNodes, siftedNodes, later, kind_sifted,
              ih n List.mem_cons_self]
      exact congrArg _ inside

/-! ### Look-ups -/

/-- **Children of some names are found among those that stay**, when all children of these names are
kept. -/
theorem ofNodes_sifted (sought : String → Bool) {parent : String}
    (kept : ∀ name, sought name = true → keeps parent (.element name) = true) (nodes : List Node) :
    (Element.ofNodes (siftedNodes keeps parent nodes)).filter (fun e => sought e.name) =
      ((Element.ofNodes nodes).filter fun e => sought e.name).map (Element.sifted keeps) := by
  rw [siftedNodes_eq, Element.ofNodes, Element.ofNodes, List.filterMap_map, List.filterMap_filter,
    List.filter_filterMap, List.filter_filterMap, List.map_filterMap]
  congr 1
  funext n
  simp only [Function.comp_apply, Node.element?_sifted]
  cases n with
  | text content =>
      simp only [Node.element?, Option.map_none, ite_self]
      rfl
  | aside =>
      simp only [Node.element?, Option.map_none, ite_self]
      rfl
  | element tag nodes =>
      have own : (Node.element tag nodes).element? = some ⟨tag, nodes⟩ := rfl
      have name : Element.name ⟨tag, nodes⟩ = tag.name := rfl
      rw [own, Option.map_some, Node.kind]
      by_cases found : sought tag.name = true
      · rw [if_pos (kept _ found)]
        simp [Option.filter, name, found]
      · split
        · simp [Option.filter, name, found]
        · simp [Option.filter, name, found]

variable {keeps} {name : String} (e : Element)

theorem Element.named_sifted (kept : keeps e.name (.element name) = true) :
    (e.sifted keeps).named name = (e.named name).map (Element.sifted keeps) := by
  refine ofNodes_sifted keeps (· == name) (fun other same => ?_) e.nodes
  rw [eq_of_beq same]
  exact kept

/-- **The first child of a name stays the first one**, when all children of the name are kept. -/
theorem Element.child?_sifted (kept : keeps e.name (.element name) = true) :
    (e.sifted keeps).child? name = (e.child? name).map (Element.sifted keeps) := by
  rw [child?_eq_head?_named, child?_eq_head?_named, named_sifted e kept, List.head?_map]

/-- The text of an element that keeps all its children. -/
theorem Element.text_sifted (all : ∀ kind, keeps e.name kind = true) :
    (e.sifted keeps).text = e.text := by
  obtain ⟨tag, nodes⟩ := e
  unfold text sifted
  dsimp only
  cases nodes with
  | nil => rw [siftedNodes]
  | cons n rest =>
      rw [siftedNodes, if_pos (all _)]
      cases n with
      | text content => rw [Node.sifted]
      | aside => rw [Node.sifted]
      | element tag nodes => rw [Node.sifted]

end Sifting

end ChipMap.Markup
