import ChipMap.Proofs.Description.Children
import ChipMap.Proofs.Target.Path

/-!
# Where paths lead in a document

The path of an element is read from the root: a name leads to the first child of that name, and a
number to one of the elements that it counts (`counted`), which may stand in a container that the
path leaves out.  **A location marks the child that its path names, by the element that the rest of
the path leads to** (`Marks`), and a written path marks one child only (`Marks.unique`).

### What is load-bearing

A path grows at its end, so what it leads to is found step by step from the front
(`locate?_concat`).  The names of steps are identifiers, which hold neither a dot nor a bracket; the
paths of items are written the same way, and what is known of those is used here (`Step.segment`).

A location may name a child that is missing.  Its path then leads to the element that should hold
the child, and with its last step to nothing, while the place is that of the element.  So a location
leads to something in either case, and `Marks` says of both what it is.
-/

namespace ChipMap.Description

open Markup (Element)

/-! ### Paths -/

/-- **The elements that a number counts**: children of one name, in a container for some of them.
Registers and clusters are counted together, and a cluster is their container itself. -/
def counted (e : Element) : String → List Element
  | "peripherals" => containedElements e "peripherals" "peripheral"
  | "registers" =>
    nodeElements
      (if e.name = "cluster" then e.nodes
      else ((e.child? "registers").map (·.nodes)).getD [])
  | "fields" => containedElements e "fields" "field"
  | "values" => e.named "enumeratedValue"
  | name => e.named name

/-- The element that a step leads to. -/
def Step.lead? (e : Element) : Step → Option Element
  | only name => e.child? name
  | nth name index => (counted e name)[index]?

/-- **The element that a path leads to.**  The first step names the root, and a path that is empty
leads nowhere. -/
def locate? (root : Element) : List Step → Option Element
  | .only name :: steps => if name = root.name then steps.foldlM Step.lead? root else none
  | _ => none

/-- A path that leads to an element leads on from there. -/
theorem locate?_concat {root e : Element} {path : List Step} (h : locate? root path = some e)
    (step : Step) : locate? root (path ++ [step]) = step.lead? e := by
  cases path with
  | nil => cases h
  | cons first steps =>
      cases first with
      | nth _ _ => cases h
      | only name =>
          rw [locate?] at h
          rw [List.cons_append, locate?]
          split at h
          · next device => rw [if_pos device, List.foldlM_append, h]; simp
          · cases h

/-! ### Written paths -/

/-- A step is written like a segment of the path of an item.  No text is both with and without a
number. -/
def Step.segment : Step → Target.Segment
  | only name => ⟨name, none⟩
  | nth name index => ⟨name, some index⟩

theorem Step.segment_injective : Function.Injective Step.segment := by
  rintro (_ | _) (_ | _) same <;> cases same <;> rfl

theorem Step.render_segment (s : Step) : s.segment.render = s.render := by
  cases s <;> rfl

/-- A step whose name cuts no path: it holds no dot and no bracket. -/
def Step.Named (s : Step) : Prop := Name.IsIdentifier s.segment.name

/-- **A written path tells which one it is.**  It can be cut into its steps again, and each of these
into its name and its number. -/
theorem renderPath_inj {path path' : List Step} (some_step : path ≠ []) (some_step' : path' ≠ [])
    (named : ∀ s ∈ path, s.Named) (named' : ∀ s ∈ path', s.Named)
    (h : renderPath path = renderPath path') : path = path' := by
  have written (p : List Step) : Target.renderPath (p.map Step.segment) = renderPath p := by
    rw [Target.renderPath, renderPath, List.map_map]
    exact congrArg _ (List.map_congr_left fun s _ => s.render_segment)
  refine List.map_injective_iff.mpr Step.segment_injective (Target.renderPath_inj ?_ ?_ ?_ ?_ ?_)
  · simpa using some_step
  · simpa using some_step'
  · exact List.forall_mem_map.mpr named
  · exact List.forall_mem_map.mpr named'
  · rw [written, written, h]

/-! ### Locations -/

/-- The location of a fault, if it is one of an element.  A document that is no tree, or whose root
is no device, has none. -/
def DocumentFault.location? : DocumentFault → Option Location
  | notWellFormed | unexpectedRoot _ => none
  | missing l _ | invalid l _ | indexCount l _ _ => some l

/-- **A location marks a child of an element**, which may be missing.  Path and place are tied to
the document, and not only to each other. -/
structure Marks (root : Element) (l : Location) (s : Scope) (name : String) : Prop where
  path : l.path = s.path ++ [.only name]
  /-- All steps but the last lead to the element. -/
  leads : locate? root s.path = some s.element
  /-- All steps lead to the child. -/
  reaches : locate? root l.path = s.element.child? name
  place : l.position = ((s.element.child? name).getD s.element).position
  named : ∀ step ∈ l.path, step.Named

/-- **A written path marks one child only.** -/
theorem Marks.unique {root : Element} {l l' : Location} {s s' : Scope} {name name' : String}
    (h : Marks root l s name) (h' : Marks root l' s' name')
    (same : renderPath l'.path = renderPath l.path) : l' = l ∧ s' = s ∧ name' = name := by
  have paths : l'.path = l.path := by
    refine renderPath_inj ?_ ?_ h'.named h.named same
    · simp [h'.path]
    · simp [h.path]
  obtain ⟨outer, last⟩ := List.append_inj' (h'.path.symm.trans (paths.trans h.path)) rfl
  obtain rfl : name' = name := by simpa using last
  have elements := h'.leads
  rw [outer, h.leads] at elements
  have places : l'.position = l.position := by
    rw [h'.place, h.place, Option.some.inj elements]
  cases s
  cases s'
  cases l
  cases l'
  exact ⟨congrArg₂ Location.mk paths places, congrArg₂ Scope.mk (Option.some.inj elements).symm outer,
    rfl⟩

/-! ### Scopes -/

/-- **An element is where its path leads.**  This is the invariant that every reader keeps when it
hands an element on. -/
structure Scope.At (root : Element) (s : Scope) : Prop where
  leads : locate? root s.path = some s.element
  named : ∀ step ∈ s.path, step.Named

namespace Scope.At

variable {root : Element} {s : Scope} (h : s.At root)

include h

/-- A step leads on to where the longer path leads. -/
theorem inner {e : Element} (step : Step) (lead : step.lead? s.element = some e)
    (named : step.Named) : (s.inner e step).At root where
  leads := (locate?_concat h.leads step).trans lead
  named := List.forall_mem_append.mpr ⟨h.named, List.forall_mem_singleton.mpr named⟩

/-- The location of a child marks the child. -/
theorem marks {name : String} (named : Name.IsIdentifier name) :
    Marks root (s.locationOf name) s name where
  path := rfl
  leads := h.leads
  reaches := locate?_concat h.leads _
  place := rfl
  named := List.forall_mem_append.mpr ⟨h.named, List.forall_mem_singleton.mpr named⟩

end Scope.At

end ChipMap.Description
