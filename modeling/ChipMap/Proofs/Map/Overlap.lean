import ChipMap.Map.Overlap
import Mathlib.Data.List.Pairwise

/-!
# Ranges without an overlap

`overlapsAfter` visits ranges one by one and remembers the one that reaches furthest.  It reports
nothing **exactly when each range begins where all before it have ended**, whatever order the ranges
are in.

### What is load-bearing

The range that reaches furthest stands for all ranges before: where it has ended, all of them have.
This much holds without an order.  That every overlap is found, and which ones, needs the ranges
sorted by their starts, and is said elsewhere.
-/

namespace ChipMap.Map

theorem furthest_stop (r s : NamedSpan) :
    (furthest (some r) s).span.stop = max r.span.stop s.span.stop := by
  unfold furthest
  dsimp only
  split
  · omega
  · omega

/-- **No overlap is reported** exactly when each range begins where all before it have
ended. -/
theorem overlapsAfter_eq_nil_iff {reaching : Option NamedSpan} {spans : List NamedSpan} :
    overlapsAfter reaching spans = [] ↔
      (∀ r ∈ reaching, ∀ s ∈ spans, r.span.stop ≤ s.span.start) ∧
        spans.Pairwise fun a b => a.span.stop ≤ b.span.start := by
  induction spans generalizing reaching with
  | nil => simp [overlapsAfter]
  | cons s rest ih =>
      rw [overlapsAfter, List.append_eq_nil_iff, ih, List.pairwise_cons]
      cases reaching with
      | none => simp [overlapWith?, furthest]
      | some r =>
          have here : (overlapWith? (some r) s).toList = [] ↔ r.span.stop ≤ s.span.start := by
            unfold overlapWith?
            dsimp only
            split
            · next shared => simp; omega
            · next apart => simp; omega
          -- What reaches furthest ends before a span exactly when everything before the span does.
          rw [here]
          simp only [Option.mem_some_iff, forall_eq', List.mem_cons, forall_eq_or_imp, furthest_stop]
          constructor
          · rintro ⟨first, reach, rest⟩
            refine ⟨⟨first, fun t ht => ?_⟩, fun t ht => ?_, rest⟩
            · have := reach t ht
              omega
            · have := reach t ht
              omega
          · rintro ⟨⟨first, reach⟩, after, rest⟩
            refine ⟨first, fun t ht => ?_, rest⟩
            have := reach t ht
            have := after t ht
            omega

/-! ### Ranges that share a position -/

end ChipMap.Map

namespace ChipMap

/-- Two ranges share a position. -/
def Span.Meets (a b : Span) : Prop := ∃ i, a.Contains i ∧ b.Contains i

theorem Span.meets_iff {a b : Span} :
    a.Meets b ↔ a.start < b.stop ∧ b.start < a.stop ∧ a.start < a.stop ∧ b.start < b.stop := by
  constructor
  · rintro ⟨i, ⟨ha, ha'⟩, hb, hb'⟩
    omega
  · intro h
    refine ⟨max a.start b.start, ⟨?_, ?_⟩, ?_, ?_⟩
    · omega
    · omega
    · omega
    · omega

instance (a b : Span) : Decidable (a.Meets b) := decidable_of_iff _ Span.meets_iff.symm

theorem Span.Meets.symm {a b : Span} (h : a.Meets b) : b.Meets a := by
  obtain ⟨i, ha, hb⟩ := h
  exact ⟨i, hb, ha⟩

end ChipMap

namespace ChipMap.Map

/-- **Ranges without a reported overlap share no position.**  The search leaves empty ranges out and
visits the others in another order, and neither matters: an empty range shares nothing. -/
theorem disjoint_of_overlaps {spans : List NamedSpan} (quiet : overlaps spans = []) :
    spans.Pairwise fun a b => ¬a.span.Meets b.span := by
  have ordered := (overlapsAfter_eq_nil_iff.mp quiet).2
  have sorted : (bySpan (spans.filter fun s => s.span.start < s.span.stop)).Pairwise
      fun a b => ¬a.span.Meets b.span := by
    refine ordered.imp fun {a b} h meets => ?_
    have := Span.meets_iff.mp meets
    omega
  have perm := Name.sortOn_perm (Name.lexLe Name.textLe)
    (fun s : NamedSpan => (s.span.start, s.name)) (spans.filter fun s => s.span.start < s.span.stop)
  have kept := (perm.pairwise_iff fun h meets => h meets.symm).mp sorted
  refine (List.pairwise_filter.mp kept).imp fun {a b} h meets => ?_
  have := Span.meets_iff.mp meets
  exact h (by simpa using this.2.2.1) (by simpa using this.2.2.2) meets

end ChipMap.Map
