import ChipMap.Proofs.Inheritance.Memory
import ChipMap.Proofs.Inheritance.Search
import Mathlib.Data.List.Chain

/-!
# The nodes under way

The nodes under way stand at different places, and each of them is needed by the one before it
(`Stacked`).  So **a node that is needed while it is under way closes a circle of needs**
(`Stacked.circle`), and no more nodes are ever under way than there are.

### What is load-bearing

The stack is kept with the latest node in front, while a cycle is reported from its earliest node
on, so a walk along the stack is turned around before it is shown (`isChain_since`).  It is cut
where the node that is asked for was put under way: what waits further back is no part of the
circle.
-/

namespace ChipMap.Inheritance

open Description

/-- **The nodes under way**, the latest first: each stands at a place of its own and is needed by
the one before it. -/
inductive Stacked (d : Device) : List Underway → Prop
  | nil : Stacked d []
  | cons {u : Underway} {before : List Underway} {kind : ItemKind} :
    IsAt d u.place kind u.path → (∀ w ∈ before, w.place ≠ u.place) →
      (∀ w ∈ before.head?, Needs d w.place u.place) → Stacked d before →
        Stacked d (u :: before)

namespace Stacked

variable {d : Device} {underway : List Underway}

theorem isAt (h : Stacked d underway) :
    ∀ u ∈ underway, ∃ kind, IsAt d u.place kind u.path := by
  induction h with
  | nil => exact fun u hu => nomatch hu
  | cons at_ _ _ _ ih =>
      intro u hu
      rcases List.mem_cons.mp hu with rfl | hu
      · exact ⟨_, at_⟩
      · exact ih u hu

theorem nodup (h : Stacked d underway) : (underway.map (·.place)).Nodup := by
  induction h with
  | nil => exact List.nodup_nil
  | cons _ other _ _ ih =>
      rw [List.map_cons, List.nodup_cons]
      refine ⟨fun hu => ?_, ih⟩
      obtain ⟨w, hw, same⟩ := List.mem_map.mp hu
      exact other w hw same

theorem needs (h : Stacked d underway) :
    underway.IsChain fun later earlier => Needs d earlier.place later.place := by
  induction h with
  | nil => exact .nil
  | cons _ _ needed _ ih => exact List.isChain_cons.mpr ⟨needed, ih⟩

/-- **No more nodes are under way than there are**, as their places differ. -/
theorem length_le (h : Stacked d underway) : underway.length ≤ nodeCount d := by
  have taken : ∀ p ∈ underway.map (·.place), ∃ kind path, IsAt d p kind path := by
    intro p hp
    obtain ⟨u, hu, rfl⟩ := List.mem_map.mp hp
    obtain ⟨kind, at_⟩ := h.isAt u hu
    exact ⟨kind, u.path, at_⟩
  simpa using length_le_nodeCount h.nodup taken

end Stacked

/-! ### Circles -/

/-- Where a key is first met, with the entries before it. -/
theorem exists_since {α κ : Type} [BEq κ] [LawfulBEq κ] (key : α → κ) {entries : List α} {k : κ}
    (h : (entries.any fun u => key u == k) = true) : ∃ later u earlier,
      entries = later ++ u :: earlier ∧ key u = k ∧
        entries.takeWhile (fun u => key u != k) = later ∧
          entries.find? (fun u => key u == k) = some u := by
  induction entries with
  | nil => cases h
  | cons u rest ih =>
      cases here : key u == k with
      | true =>
          have same : key u = k := eq_of_beq here
          exact ⟨[], u, rest, rfl, same, by simp [same], by simp [same]⟩
      | false =>
          rw [List.any_cons, here, Bool.false_or] at h
          obtain ⟨later, v, earlier, rfl, same, takes, finds⟩ := ih h
          refine ⟨u :: later, v, earlier, rfl, same, ?_, ?_⟩
          · rw [List.takeWhile_cons_of_pos (by simp [bne, here]), takes]
          · rw [List.find?_cons_of_neg (by simp [here]), finds]

/-- A stack is read from its latest entry on, a walk from its earliest one on. -/
theorem isChain_since {α : Type} {R : α → α → Prop} {later earlier : List α} {u v : α}
    (stack : (later ++ u :: earlier).IsChain fun a b => R b a)
    (next : ∀ w ∈ (later ++ u :: earlier).head?, R w v) :
    (u :: later.reverse ++ [v]).IsChain R := by
  have since : (later ++ [u]).IsChain fun a b => R b a := by
    rw [show later ++ u :: earlier = (later ++ [u]) ++ earlier by simp] at stack
    exact stack.left_of_append
  have first : (later ++ u :: earlier).head? = (later ++ [u]).head? := by
    cases later <;> rfl
  have closed : (v :: (later ++ [u])).IsChain fun a b => R b a :=
    List.isChain_cons.mpr ⟨fun w hw => next w (first ▸ hw), since⟩
  have walk := List.isChain_reverse.mpr closed
  rwa [List.reverse_cons, List.reverse_append, List.reverse_singleton] at walk

/-- **A node that is needed while it is under way closes a circle.** -/
theorem Stacked.circle {d : Device} {s : Resolver} (h : Stacked d s.underway) {place : Place}
    {kind : ItemKind} {path : String} (at_ : IsAt d place kind path)
    (needed : ∀ w ∈ s.underway.head?, Needs d w.place place)
    (again : (s.underway.any fun u => u.place == place) = true) :
    Circle d kind (s.chainSince place ++ [path]) := by
  obtain ⟨later, u, earlier, split, rfl, takes, finds⟩ := exists_since Underway.place again
  have chain : s.chainSince u.place ++ [path] = (u :: later.reverse).map (·.path) ++ [path] := by
    rw [Resolver.chainSince, takes, finds]
    rfl
  -- Each place on the stack needs the one that was put there after it, and the last one needs this
  -- place.
  have walk : ((u :: later.reverse).map (·.place) ++ [u.place]).IsChain (Needs d) := by
    have stack : (s.underway.map (·.place)).IsChain fun a b => Needs d b a :=
      (List.isChain_map _).mpr h.needs
    rw [split, List.map_append, List.map_cons] at stack
    have next : ∀ p ∈ (later.map (·.place) ++ u.place :: earlier.map (·.place)).head?,
        Needs d p u.place := by
      rw [← List.map_cons, ← List.map_append, ← split, List.head?_map]
      rintro p hp
      obtain ⟨w, hw, rfl⟩ := Option.map_eq_some_iff.mp hp
      exact needed w hw
    simpa using isChain_since stack next
  have each : ∀ w ∈ u :: later.reverse, ∃ kind, IsAt d w.place kind w.path := by
    intro w hw
    refine h.isAt w ?_
    rw [split]
    rcases List.mem_cons.mp hw with rfl | hw
    · simp
    · exact List.mem_append_left _ (List.mem_reverse.mp hw)
  rw [chain]
  refine .nodes ?_ ?_ walk ?_ ?_
  · simp
  · rw [List.getLast?_concat]
    rfl
  · rintro p hp
    obtain rfl : u.place = p := by simpa using hp
    exact ⟨path, at_⟩
  · refine List.rel_append ?_ (.cons ⟨kind, at_⟩ .nil)
    rw [List.forall₂_map_left_iff, List.forall₂_map_right_iff, List.forall₂_same]
    exact each

end ChipMap.Inheritance
