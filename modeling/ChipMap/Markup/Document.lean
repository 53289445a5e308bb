import ChipMap.Markup.Token

/-!
# Reading a document

The tokens of a document make a tree when every element is closed by an end tag of its own name, one
element holds all others, and every qualifier is bound to a namespace.  A stack of open elements is
enough to find out: a start tag puts an element on it, and an end tag takes off the innermost one
and makes it a child of the next.

* `Bindings` — the namespaces that qualifiers are bound to.
* `resolveTag?` — the tag of an element, once its qualifiers are resolved.
* `Progress`, `Progress.step` — the elements that are open while tokens are read, and what a token
  does to them.
* `ofTokens?`, `read?` — the root element of tokens and of a document.

### What is load-bearing

Qualifiers are resolved at the start tag, with the bindings of the elements around it behind its
own, so the innermost binding of a qualifier is the first one that is found.  Two attributes may be
written differently and still have one name in one namespace, which is why they are compared after
they are resolved (`resolveAttributes?`).

Children are collected in reverse and turned around when their element is closed.  Runs of text that
touch become one node then and there (`addText`), so a literal section does not part the text around
it.
-/

namespace ChipMap.Markup

open Text (Position)

/-- The namespace that the qualifier `xml` is always bound to.  It needs no declaration. -/
def xmlNamespace : String :=
  String.intercalate "/" ["http:", "", "www.w3.org", "XML", "1998", "namespace"]

/-- The namespace of declarations of namespaces.  Nothing may be bound to it. -/
def declarationNamespace : String :=
  String.intercalate "/" ["http:", "", "www.w3.org", "2000", "xmlns", ""]

/-- The namespaces that qualifiers are bound to, the innermost binding first.  The empty qualifier
is that of names without one. -/
abbrev Bindings := List (String × String)

/-- The namespaces that a start tag binds, in the order they are written.  The namespace `xml` may
be bound to its own qualifier only, the namespace of declarations to none, and a qualifier only
once in a tag. -/
def declared? : List (QName × String) → Option Bindings
  | [] => some []
  | (name, uri) :: rest => do
    let others ← declared? rest
    if name.qualifier == "xmlns" then
      if uri == declarationNamespace then none
      else if (name.base == "xml") != (uri == xmlNamespace) then none
      else if name.base == "xml" then some others
      else if rest.any fun a => a.1.qualifier == "xmlns" && a.1.base == name.base then none
      else some ((name.base, uri) :: others)
    else if name.base == "xmlns" then
      if uri == xmlNamespace || uri == declarationNamespace then none
      else some (("", uri) :: others)
    else some others

/-- Whether an attribute binds a namespace.  Such attributes are none of the attributes of the
element. -/
def declares (a : QName × String) : Bool :=
  a.1.qualifier == "xmlns" || a.1.base == "xmlns"

/-- The namespace of an attribute, absent when its name has no qualifier. -/
def attributeNamespace? (bindings : Bindings) (name : QName) : Option (Option String) :=
  if name.qualifier.isEmpty then some none
  else if name.qualifier == "xml" then some (some xmlNamespace)
  else (bindings.lookup name.qualifier).map some

/-- The attributes of a tag with their namespaces.  Two attributes of one name and one namespace
are not allowed. -/
def resolveAttributes? (bindings : Bindings) :
    List (QName × String) → Option (List ((Option String × String) × String))
  | [] => some []
  | (name, value) :: rest => do
    let uri ← attributeNamespace? bindings name
    let others ← resolveAttributes? bindings rest
    if others.any fun a => a.1 == (uri, name.base) then none
    else some (((uri, name.base), value) :: others)

/-- The tag of an element and the bindings inside it, when every qualifier is bound.  The bindings
of the tag itself are in force for its own name and attributes. -/
def resolveTag? (outer : Bindings) (name : QName) (attributes : List (QName × String))
    (start : Position) : Option (Tag × Bindings) := do
  if name.qualifier == "xmlns" then none
  let bindings := (← declared? attributes) ++ outer
  let resolved ← resolveAttributes? bindings (attributes.filter fun a => !declares a)
  if !name.qualifier.isEmpty && (bindings.lookup name.qualifier).isNone then none
  let plain := resolved.filterMap fun a =>
    if a.1.1.isNone then some (a.1.2, a.2) else none
  some (⟨name.base, plain, start⟩, bindings)

/-- An element whose end tag was not read yet.  It keeps its name as it was written, since the end
tag has to repeat the qualifier too. -/
structure OpenElement where
  /-- Its name as written, which the end tag repeats. -/
  name : QName
  /-- Its tag. -/
  tag : Tag
  /-- The namespaces bound inside it. -/
  bindings : Bindings
  /-- Its children so far, the last one first. -/
  nodes : List Node
deriving Repr, Inhabited

/-- The children so far with a run of text behind them.  Runs that touch are one run. -/
def addText (nodes : List Node) (content : List Char) : List Node :=
  match nodes with
  | .text earlier :: before => .text (earlier ++ String.ofList content) :: before
  | _ => .text (String.ofList content) :: nodes

/-- How far a document is read: the open elements, the innermost first, and the root element once it
is closed. -/
structure Progress where
  /-- The open elements, the innermost first. -/
  stack : List OpenElement
  /-- The closed root element. -/
  root : Option Element
deriving Repr, Inhabited

namespace Progress

def start : Progress := ⟨[], none⟩

/-- A closed element becomes a child of the innermost open one, or the root if none is open. -/
def close (stack : List OpenElement) (e : Element) : Progress :=
  match stack with
  | parent :: outer =>
    ⟨{ parent with nodes := .element e.tag e.nodes :: parent.nodes } :: outer, none⟩
  | [] => ⟨[], some e⟩

/-- Reads one token.  Outside the root element there are comments, processing instructions and
separating characters only. -/
def step (p : Progress) (token : Token) : Option Progress :=
  match token, p.stack with
  | .opening name attributes position closed, stack => do
    -- There is one root element.
    if p.root.isSome then none
    let outer := (stack.head?.map OpenElement.bindings).getD []
    let (tag, bindings) ← resolveTag? outer name attributes position
    if closed then some (close stack ⟨tag, []⟩)
    else some ⟨⟨name, tag, bindings, []⟩ :: stack, none⟩
  | .closing name, innermost :: outer =>
    if name = innermost.name then some (close outer ⟨innermost.tag, innermost.nodes.reverse⟩)
    else none
  | .closing _, [] => none
  | .text content _, innermost :: outer =>
    some { p with stack := { innermost with nodes := addText innermost.nodes content } :: outer }
  | .text _ spaces, [] => if spaces then some p else none
  | .literal content, innermost :: outer =>
    some { p with stack := { innermost with nodes := addText innermost.nodes content } :: outer }
  | .literal _, [] => none
  | .aside, innermost :: outer =>
    some { p with stack := { innermost with nodes := .aside :: innermost.nodes } :: outer }
  | .aside, [] => some p

end Progress

/-- The root element that tokens make, when every element is closed and there is one root.  A token
that fits nowhere ends the reading. -/
def ofTokens? (tokens : List Token) : Option Element := do
  let p ← tokens.foldlM Progress.step .start
  p.root

/-- The root element of a well-formed document. -/
def read? (text : String) : Option Element := do
  ofTokens? (← tokens? text)

end ChipMap.Markup
