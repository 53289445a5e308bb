import ChipMap.Text.Scan

/-!
# Trees of a document

A document is a tree of elements.  What a description of a chip needs of an element is its name, its
attributes, the place of its start tag and its children; comments and processing instructions matter
only in that they separate one run of text from the next.  So the text of an element is that before
its first child of any kind, and a comment in front of it hides it.

* `Tag` — what stands in a start tag.
* `Node` — a node of the tree.
* `Element` — a node that is an element, with its look-ups `children`, `named`, `child?`,
  `attribute?` and `text`.

### What is load-bearing

Names carry no qualifier.  Qualifiers are resolved while the tree is made, and neither they nor the
namespaces are asked for afterwards: an element of another namespace is found under its bare name.
An attribute is found only if it is in no namespace.
-/

namespace ChipMap.Markup

open Text (Position)

/-- A start tag.  Names are without their qualifiers; an attribute that is in some namespace is left
out. -/
structure Tag where
  /-- The name of the element. -/
  name : String
  /-- The attributes with their values, in the order they were written. -/
  attributes : List (String × String)
  /-- The place of the bracket that opens the tag. -/
  start : Position
deriving DecidableEq, Repr, Inhabited

/-- A node below the root of a document.  A longest run of character data is one node, however it
was written. -/
inductive Node where
  /-- A longest run of character data. -/
  | text (content : String)
  /-- A comment or a processing instruction. -/
  | aside
  /-- An element with its children in order. -/
  | element (tag : Tag) (children : List Node)
deriving Repr, Inhabited

/-- A node that is an element. -/
structure Element where
  /-- The start tag. -/
  tag : Tag
  /-- The children in order. -/
  nodes : List Node
deriving Repr, Inhabited

/-- The element that a node is, if it is one.  Look-ups go through this and see no other nodes. -/
def Node.element? : Node → Option Element
  | .element tag children => some ⟨tag, children⟩
  | _ => none

namespace Element

def name (e : Element) : String := e.tag.name

/-- The place of an element is that of its start tag. -/
def position (e : Element) : Position := e.tag.start

/-- The elements among a list of nodes, in order. -/
def ofNodes (nodes : List Node) : List Element := nodes.filterMap Node.element?

/-- The child elements, in order.  Texts and comments between them are left out. -/
def children (e : Element) : List Element := ofNodes e.nodes

/-- The child elements of one name, in order. -/
def named (e : Element) (name : String) : List Element :=
  e.children.filter fun c => c.name == name

/-- The first child element of a name.  Where a document gives an element twice, the first one
counts. -/
def child? (e : Element) (name : String) : Option Element :=
  e.children.find? fun c => c.name == name

/-- The value of an attribute that is in no namespace. -/
def attribute? (e : Element) (name : String) : Option String :=
  e.tag.attributes.lookup name

/-- The text of an element is its first child, if that is text, and empty otherwise. -/
def text (e : Element) : String :=
  match e.nodes with
  | .text content :: _ => content
  | _ => ""

/-- The first child of a name is the head of the children of that name.  Readers ask in either
way. -/
theorem child?_eq_head?_named (e : Element) (name : String) :
    e.child? name = (e.named name).head? := by
  simp [child?, named, List.head?_filter]

end Element

end ChipMap.Markup
