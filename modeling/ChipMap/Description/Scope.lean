import ChipMap.Description.Basic
import ChipMap.Description.Fault
import ChipMap.Markup.Tree
import ChipMap.Numeral.Pattern

/-!
# Reading the attributes of an element

Most attributes of a node are child elements that hold one value each.  A scope is an element
together with its path, so that a fault can say where it is.  All readers of nodes are made of the
readers here, which differ in whether the child has to be there and in what its text is read as.

* `Scope` — an element and its path.
* `Scope.text?`, `Scope.prose?`, `Scope.attribute?` — texts, without their outer blanks or with
  every run of blanks as one space.
* `Scope.value?`, `Scope.requiredValue` — the value of a child element, if it is there or has to be.
* `Scope.derivableWord` — the word of a child element that only a node which derives from another
  may leave out.
* `Scope.readEach` — elements of one name, each in a scope of its own.

### What is load-bearing

A child that is absent and a child that is wrong are told apart: the former is the concern of the
node, the latter is a fault at once.  The place of a fault is that of the child, and of the node
around it when there is no child (`Scope.locationOf`).  Only the first child of a name is looked at.
-/

namespace ChipMap.Description

/-- An element together with its path from the root.  The path is carried along and never looked up:
no element knows what is around it. -/
structure Scope where
  /-- The element. -/
  element : Markup.Element
  /-- The steps from the root to the element. -/
  path : List Step
deriving Repr, Inhabited

namespace Scope

/-- The scope of an element one step further. -/
def inner (s : Scope) (element : Markup.Element) (step : Step) : Scope :=
  ⟨element, s.path ++ [step]⟩

/-- Where the child of a name is.  A missing child has the place of its parent, but the path that it
would have. -/
def locationOf (s : Scope) (name : String) : Location :=
  ⟨s.path ++ [.only name], ((s.element.child? name).getD s.element).position⟩

/-- The text of the first child of a name, without its outer blanks.  A child that is there but
empty has the empty text. -/
def text? (s : Scope) (name : String) : Option String :=
  (s.element.child? name).map fun e => Text.trim e.text

/-- The text of the first child of a name, with every run of blanks as one space. -/
def prose? (s : Scope) (name : String) : Option String :=
  (s.text? name).map Text.collapse

/-- The value of an attribute without its outer blanks. -/
def attribute? (s : Scope) (name : String) : Option String :=
  (s.element.attribute? name).map Text.trim

/-- The fault of a child that is missing. -/
def missing {α : Type} (s : Scope) (name : String) : Except DocumentFault α :=
  .error (.missing (s.locationOf name) name)

/-- The fault of a child whose text is no value. -/
def invalid {α : Type} (s : Scope) (name : String) (cause : Malformed) : Except DocumentFault α :=
  .error (.invalid (s.locationOf name) cause)

/-- The text of a child that has to be there and may not be blank.  A blank child counts as missing,
although the fault has its place. -/
def required (s : Scope) (name : String) : Except DocumentFault String :=
  match s.text? name with
  | some text => if text.isEmpty then s.missing name else .ok text
  | none => s.missing name

/-- The value of a child, if the child is there.  The reader is given the text without its outer
blanks. -/
def value? {α : Type} (s : Scope) (name : String) (read : String → Except Malformed α) :
    Except DocumentFault (Option α) :=
  match s.text? name with
  | some text =>
    match read text with
    | .ok value => .ok (some value)
    | .error cause => s.invalid name cause
  | none => .ok none

/-- The word of a child, if the child is there. -/
def word? (s : Scope) (name : String) : Except DocumentFault (Option Word) :=
  s.value? name Numeral.readWord

/-- The value of a child that has to be there. -/
def requiredValue {α : Type} (s : Scope) (name : String) (read : String → Except Malformed α) :
    Except DocumentFault α := do
  match ← s.value? name read with
  | some value => .ok value
  | none => s.missing name

/-- The word of a child that has to be there. -/
def requiredWord (s : Scope) (name : String) : Except DocumentFault Word :=
  s.requiredValue name Numeral.readWord

/-- The word of a child that has to be there unless the node derives from another. -/
def derivableWord (s : Scope) (derivedFrom : Option String) (name : String) :
    Except DocumentFault (Option Word) :=
  if derivedFrom.isSome then s.word? name else some <$> s.requiredWord name

/-- Reads each of a list of elements in the scope of its number.  The numbers count the elements of
the list and no others. -/
def readEach {α : Type} (s : Scope) (name : String) (read : Scope → Except DocumentFault α)
    (elements : List Markup.Element) : Except DocumentFault (List α) :=
  (elements.zipIdx).mapM fun (element, index) => read (s.inner element (.nth name index))

end Scope

end ChipMap.Description
