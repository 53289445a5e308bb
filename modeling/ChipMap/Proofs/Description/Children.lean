import ChipMap.Description.OfMarkup

/-!
# Registers and clusters among the children of an element

The reader of registers and clusters goes through nodes and counts on with each one that it reads.
**It reads the elements of these two names one by one** (`readItems_eq`), each with its number among
them, so what is proved of one element (`readNode`) is proved of all by a law of lists.

### What is load-bearing

The recursion of the reader is over nodes, and a node may be a text or an element of another name.
Such a node gives nothing and takes no number.  Once this is said, the elements that count are a
filtered list, and the numbers are their positions in it.
-/

namespace ChipMap.Markup.Element

theorem name_of_child? {e c : Element} {name : String} (h : e.child? name = some c) :
    c.name = name :=
  eq_of_beq (List.find?_some (p := fun c : Element => c.name == name) h)

end ChipMap.Markup.Element

namespace ChipMap.Description

/-- The elements among some nodes that are registers or clusters, in the order of the document. -/
def nodeElements (nodes : List Markup.Node) : List Markup.Element :=
  (Markup.Element.ofNodes nodes).filter fun e => e.name == "register" || e.name == "cluster"

/-- The register or cluster that an element is.  An element of any other name counts as a cluster
here, so this is used for these two only. -/
def readNode (s : Scope) : Except DocumentFault Item :=
  if s.element.tag.name = "register" then do
    return .register (← readRegister s)
  else do
    let info ← readClusterInfo s
    let children ← readItems s.path 0 s.element.nodes
    return .cluster info children

/-- An element is read as a register or cluster exactly when its name says so; then `readNode` reads
it, in the scope of its number. -/
theorem readItem_element (path : List Step) (index : Nat) (tag : Markup.Tag)
    (nodes : List Markup.Node) :
    readItem path index (.element tag nodes) =
      if tag.name == "register" || tag.name == "cluster" then
        some <$> readNode ⟨⟨tag, nodes⟩, path ++ [.nth "registers" index]⟩
      else .ok none := by
  rw [readItem]
  unfold readNode
  dsimp only
  by_cases register : tag.name = "register"
  · rw [if_pos register, if_pos register, register, beq_self_eq_true, Bool.true_or, if_pos rfl]
    cases readRegister ⟨⟨tag, nodes⟩, path ++ [.nth "registers" index]⟩ with
    | error _ => rfl
    | ok r => rfl
  · rw [if_neg register, if_neg register, beq_false_of_ne register, Bool.false_or]
    by_cases cluster : tag.name = "cluster"
    · rw [if_pos cluster, if_pos (beq_iff_eq.mpr cluster)]
      cases readClusterInfo ⟨⟨tag, nodes⟩, path ++ [.nth "registers" index]⟩ with
      | error _ => rfl
      | ok info =>
          cases readItems (path ++ [.nth "registers" index]) 0 nodes with
          | error _ => rfl
          | ok children => rfl
    · rw [if_neg cluster, if_neg (by simpa using cluster)]
      rfl

/-- **Registers and clusters are read one by one**, with numbers of their own.  The induction is on
the nodes, for every number to begin with. -/
theorem readItems_eq (path : List Step) (nodes : List Markup.Node) : ∀ index,
    readItems path index nodes = ((nodeElements nodes).zipIdx index).mapM fun (e, k) =>
      readNode ⟨e, path ++ [.nth "registers" k]⟩ := by
  induction nodes with
  | nil => exact fun _ => rfl
  | cons node rest ih =>
      intro index
      rw [readItems]
      cases node with
      | text _ =>
          rw [readItem]
          exact ih index
      | aside =>
          rw [readItem]
          exact ih index
      | element tag nodes =>
          have listed : nodeElements (.element tag nodes :: rest) =
              if tag.name == "register" || tag.name == "cluster" then
                ⟨tag, nodes⟩ :: nodeElements rest
              else nodeElements rest := List.filter_cons
          rw [readItem_element, listed]
          split
          · rw [List.zipIdx_cons, List.mapM_cons, ← ih]
            dsimp only
            cases readNode ⟨⟨tag, nodes⟩, path ++ [.nth "registers" index]⟩ with
            | error _ => rfl
            | ok item => rfl
          · exact ih index

end ChipMap.Description
