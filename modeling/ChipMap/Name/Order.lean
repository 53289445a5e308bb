import ChipMap.Name.Unique

/-!
# Canonical order

The nodes of a map are in an order that depends on their names and positions only, so a document may
list them in any order.  Names are claimed in such an order too, and for the same reason: which of
two nodes keeps a name that both want would else depend on the document.

* `lexLe` — pairs in the order of their first parts, and of their second parts where these agree.
* `natLe`, `textLe` — numbers and texts in their order.
* `sortOn` — a list in the order of a key.
* `renameInOrder` — nodes with unique names, claimed in the order of a key.

### What is load-bearing

Sorting is stable: entries of one key keep the order that they were listed in.  So a map depends on
the order of its document only where two keys agree, which takes two nodes that want one name at one
position.

Comparisons are Boolean functions and no order classes.  A list is sorted by several keys in turn,
and each of them is given where it is used.
-/

namespace ChipMap.Name

/-- Pairs in the order of their first parts, and of their second parts where the first agree.  Three
parts are ordered as a pair in a pair. -/
def lexLe {α β : Type} [LT α] [DecidableEq α] [DecidableLT α] (le : β → β → Bool) (a b : α × β) :
    Bool :=
  decide (a.1 < b.1) || (decide (a.1 = b.1) && le a.2 b.2)

def natLe (a b : Nat) : Bool := decide (a ≤ b)

/-- Texts in the order of their code points, which for encoded texts is the order of their
bytes. -/
def textLe (a b : String) : Bool := !decide (b < a)

/-- A list in the order of a key; entries of one key keep their order. -/
def sortOn {α κ : Type} (le : κ → κ → Bool) (key : α → κ) (items : List α) : List α :=
  items.mergeSort fun a b => le (key a) (key b)

/-- Nodes with unique names.  The names are claimed in the order of a key, so the first of several
nodes whose names collide keeps its name.  The nodes are returned in the order in which they have
claimed. -/
def renameInOrder {α κ : Type} (le : κ → κ → Bool) (key : α → κ) (name : α → String)
    (rename : α → String → α) (items : List α) : List α :=
  let ordered := sortOn le key items
  ordered.zipWith rename (claimAll (ordered.map name))

@[simp] theorem length_sortOn {α κ : Type} (le : κ → κ → Bool) (key : α → κ) (items : List α) :
    (sortOn le key items).length = items.length :=
  List.length_mergeSort items

theorem sortOn_perm {α κ : Type} (le : κ → κ → Bool) (key : α → κ) (items : List α) :
    (sortOn le key items).Perm items :=
  List.mergeSort_perm items _

@[simp] theorem length_renameInOrder {α κ : Type} (le : κ → κ → Bool) (key : α → κ)
    (name : α → String) (rename : α → String → α) (items : List α) :
    (renameInOrder le key name rename items).length = items.length := by
  simp [renameInOrder, claimAll]

end ChipMap.Name
