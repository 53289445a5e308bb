import ChipMap.Proofs.Map.Overlap
import ChipMap.Proofs.Name.Order

/-!
# One sweep finds every overlap

The search for overlaps visits ranges in the order of their starts and remembers one of them, the
one that reaches furthest.  `reports_overlaps`: when names tell the occupants of the ranges apart,
**it reports nothing exactly when no two of them share a position, each report names two of them and
exactly what they share, and each one that meets one before it is the second of exactly one report**
(`Reports`).

### What is load-bearing

Whatever meets a range from before it ends behind its start, and so does the range that reaches
furthest (`exists_reach`), which begins no later either.  So the one comparison that the sweep makes
for a range answers for all ranges before it.

A sweep over a list is a sweep over its front, and then one over the rest with what is remembered
(`overlapsAfter_append`).  Each statement about a range is made where the list is cut in front of
it.

The occupants are a type of their own (`Reports`), because ranges alone do not tell two of them
apart: two registers may have the same bytes.  The sweep sees names, so names have to be distinct.
-/

namespace ChipMap.Map

/-! ### The range that reaches furthest -/

/-- What a sweep remembers behind some ranges: the first of them that reaches furthest. -/
def reach (reaching : Option NamedSpan) (spans : List NamedSpan) : Option NamedSpan :=
  spans.foldl (fun r s => some (furthest r s)) reaching

theorem furthest_cases (reaching : Option NamedSpan) (s : NamedSpan) :
    furthest reaching s = s ∨ reaching = some (furthest reaching s) := by
  unfold furthest
  split
  · split
    · exact .inr rfl
    · exact .inl rfl
  · exact .inl rfl

theorem mem_of_reach {spans : List NamedSpan} : ∀ {reaching : Option NamedSpan} {r : NamedSpan},
    reach reaching spans = some r → reaching = some r ∨ r ∈ spans := by
  induction spans with
  | nil => exact fun h => .inl h
  | cons s rest ih =>
      intro reaching r h
      rcases ih h with same | later
      · obtain rfl := Option.some.inj same
        rcases furthest_cases reaching s with here | earlier
        · rw [here]
          exact .inr List.mem_cons_self
        · exact .inl earlier
      · exact .inr (List.mem_cons_of_mem s later)

/-- **What is remembered reaches as far as each of the ranges.** -/
theorem exists_reach {spans : List NamedSpan} : ∀ {reaching : Option NamedSpan} {t : NamedSpan},
    reaching = some t ∨ t ∈ spans →
      ∃ r, reach reaching spans = some r ∧ t.span.stop ≤ r.span.stop := by
  induction spans with
  | nil =>
      rintro reaching t (rfl | none_)
      · exact ⟨t, rfl, Nat.le_refl _⟩
      · cases none_
  | cons s rest ih =>
      have onward {reaching : Option NamedSpan} {t : NamedSpan}
          (reaches : t.span.stop ≤ (furthest reaching s).span.stop) :
          ∃ r, reach reaching (s :: rest) = some r ∧ t.span.stop ≤ r.span.stop := by
        obtain ⟨r, found, further⟩ := @ih (some (furthest reaching s)) _ (.inl rfl)
        exact ⟨r, found, Nat.le_trans reaches further⟩
      rintro reaching t (rfl | inside)
      · exact onward (by rw [furthest_stop]; exact Nat.le_max_left _ _)
      · rcases List.mem_cons.mp inside with rfl | later
        · refine onward ?_
          cases reaching with
          | none => exact Nat.le_refl _
          | some r => rw [furthest_stop]; exact Nat.le_max_right _ _
        · exact ih (.inr later)

/-! ### The sweep, range by range -/

/-- **A sweep over one list after another.** -/
theorem overlapsAfter_append (first second : List NamedSpan) : ∀ reaching : Option NamedSpan,
    overlapsAfter reaching (first ++ second) =
      overlapsAfter reaching first ++ overlapsAfter (reach reaching first) second := by
  induction first with
  | nil => exact fun _ => rfl
  | cons s rest ih =>
      intro reaching
      rw [List.cons_append, overlapsAfter, ih, overlapsAfter, List.append_assoc]
      rfl

/-- Each report is made at one of the ranges, and compares it with what is remembered there. -/
theorem exists_of_mem_overlapsAfter {o : Overlap} {spans : List NamedSpan} :
    ∀ {reaching : Option NamedSpan}, o ∈ overlapsAfter reaching spans →
      ∃ before s after, spans = before ++ s :: after ∧
        overlapWith? (reach reaching before) s = some o := by
  induction spans with
  | nil =>
      intro reaching h
      cases h
  | cons s rest ih =>
      intro reaching h
      rcases List.mem_append.mp h with here | later
      · exact ⟨[], s, rest, rfl, Option.mem_toList.mp here⟩
      · obtain ⟨before, t, after, rfl, found⟩ := ih later
        exact ⟨s :: before, t, after, rfl, found⟩

theorem overlapWith?_eq_some {reaching : Option NamedSpan} {s : NamedSpan} {o : Overlap} :
    overlapWith? reaching s = some o ↔ ∃ r, reaching = some r ∧ s.span.start < r.span.stop ∧
      o = ⟨r.name, s.name, ⟨s.span.start, min s.span.stop r.span.stop⟩⟩ := by
  unfold overlapWith?
  cases reaching with
  | none => simp
  | some r =>
      dsimp only
      split
      · next shared => simp [shared, eq_comm]
      · next apart => simp [apart]

theorem second_of_overlapWith? {reaching : Option NamedSpan} {s : NamedSpan} {o : Overlap}
    (h : overlapWith? reaching s = some o) : o.second = s.name := by
  obtain ⟨r, -, -, rfl⟩ := overlapWith?_eq_some.mp h
  rfl

theorem second_mem {reaching : Option NamedSpan} {spans : List NamedSpan} {o : Overlap}
    (h : o ∈ overlapsAfter reaching spans) : o.second ∈ spans.map (·.name) := by
  obtain ⟨before, s, after, rfl, found⟩ := exists_of_mem_overlapsAfter h
  rw [second_of_overlapWith? found]
  simp

/-! ### Ranges in order -/

/-- **Ranges in the order of their starts**, and of their names where these agree. -/
def NamedSpan.Before (a b : NamedSpan) : Prop :=
  a.span.start < b.span.start ∨ a.span.start = b.span.start ∧ a.name < b.name

theorem NamedSpan.Before.start_le {a b : NamedSpan} (h : a.Before b) :
    a.span.start ≤ b.span.start := by
  rcases h with less | ⟨same, -⟩
  · exact Nat.le_of_lt less
  · exact Nat.le_of_eq same

theorem NamedSpan.Before.asymm {a b : NamedSpan} (h : a.Before b) : ¬b.Before a := by
  rintro (less | ⟨same, less⟩)
  · have := h.start_le
    omega
  · rcases h with less' | ⟨-, less'⟩
    · omega
    · exact lt_asymm less less'

/-- Ranges with distinct names are strictly in order when they are sorted. -/
theorem bySpan_pairwise {spans : List NamedSpan} (names : (spans.map (·.name)).Nodup) :
    (bySpan spans).Pairwise NamedSpan.Before := by
  have order : (bySpan spans).Pairwise fun a b =>
      Name.lexLe Name.textLe (a.span.start, a.name) (b.span.start, b.name) = true :=
    Name.sortOn_pairwise Name.textLe_totalOrder.lexLe
  have perm := Name.sortOn_perm (Name.lexLe Name.textLe)
    (fun s : NamedSpan => (s.span.start, s.name)) spans
  have apart := List.pairwise_map.mp ((perm.map (·.name)).nodup_iff.mpr names)
  refine (order.and apart).imp fun {a b} ⟨le, other⟩ => ?_
  rcases Name.lexLe_iff.mp le with less | ⟨same, le⟩
  · exact .inl less
  · exact .inr ⟨same, lt_of_le_of_ne (Name.textLe_iff.mp le) other⟩

section Sorted

variable {before after : List NamedSpan} {s : NamedSpan}

/-- **A report is exact**: it names a range from before, and what it shares with the next one. -/
theorem overlap_exact (earlier : ∀ t ∈ before, t.Before s) (nonempty : s.span.start < s.span.stop)
    {o : Overlap} (h : overlapWith? (reach none before) s = some o) :
    ∃ r ∈ before, o.first = r.name ∧ o.second = s.name ∧ r.span.Meets s.span ∧
      ∀ i, o.shared.Contains i ↔ r.span.Contains i ∧ s.span.Contains i := by
  obtain ⟨r, found, reaches, rfl⟩ := overlapWith?_eq_some.mp h
  rcases mem_of_reach found with none_ | inside
  · cases none_
  · have first := (earlier r inside).start_le
    refine ⟨r, inside, rfl, rfl, ⟨s.span.start, ⟨first, reaches⟩, Nat.le_refl _, nonempty⟩, ?_⟩
    intro i
    simp only [Span.Contains]
    omega

/-- **A range that meets one from before is reported.** -/
theorem exists_overlap {t : NamedSpan} (inside : t ∈ before) (meets : t.span.Meets s.span) :
    ∃ o, overlapWith? (reach none before) s = some o := by
  have reaches := (Span.meets_iff.mp meets).2.1
  have seen : (none : Option NamedSpan) = some t ∨ t ∈ before := .inr inside
  obtain ⟨r, found, further⟩ := exists_reach seen
  exact ⟨_, overlapWith?_eq_some.mpr ⟨r, found, Nat.lt_of_lt_of_le reaches further, rfl⟩⟩

/-- **The reports that name a range second are those made at it**, when names differ. -/
theorem filter_second (names : ((before ++ s :: after).map (·.name)).Nodup) :
    (overlapsAfter none (before ++ s :: after)).filter (fun o => o.second = s.name) =
      (overlapWith? (reach none before) s).toList := by
  rw [List.map_append, List.map_cons] at names
  have left := fun same => (List.disjoint_of_nodup_append names) same List.mem_cons_self
  have right := (List.nodup_cons.mp names.of_append_right).1
  rw [overlapsAfter_append, overlapsAfter, List.filter_append, List.filter_append]
  have first : (overlapsAfter none before).filter (fun o => o.second = s.name) = [] := by
    refine List.filter_eq_nil_iff.mpr fun o ho same => left ?_
    exact (of_decide_eq_true same) ▸ second_mem ho
  have last : (overlapsAfter (some (furthest (reach none before) s)) after).filter
      (fun o => o.second = s.name) = [] := by
    refine List.filter_eq_nil_iff.mpr fun o ho same => right ?_
    exact (of_decide_eq_true same) ▸ second_mem ho
  have here : (overlapWith? (reach none before) s).toList.filter (fun o => o.second = s.name) =
      (overlapWith? (reach none before) s).toList := by
    refine List.filter_eq_self.mpr fun o ho => decide_eq_true ?_
    exact second_of_overlapWith? (Option.mem_toList.mp ho)
  rw [first, last, here, List.nil_append, List.append_nil]

end Sorted

/-! ### What is reported -/

/-- **An overlap of two ranges**, one before the other: both names, and exactly what they share. -/
structure Overlap.Of (o : Overlap) (a b : NamedSpan) : Prop where
  first : o.first = a.name
  second : o.second = b.name
  before : a.Before b
  meets : a.span.Meets b.span
  shared : ∀ i, o.shared.Contains i ↔ a.span.Contains i ∧ b.span.Contains i

/-- **A report of all overlaps** of the ranges that some occupants have.  An occupant that meets
several before it is reported once, with one of them. -/
structure Reports {ι : Type} (Occupies : ι → NamedSpan → Prop) (found : List Overlap) : Prop where
  /-- Nothing is reported exactly when no two occupants share a position. -/
  quiet : found = [] ↔
    ∀ i j a b, Occupies i a → Occupies j b → i ≠ j → ¬a.span.Meets b.span
  /-- Each report is an overlap of two different occupants. -/
  overlap : ∀ o ∈ found, ∃ i j a b, Occupies i a ∧ Occupies j b ∧ i ≠ j ∧ o.Of a b
  /-- Each occupant that meets one before it is the second one of exactly one report. -/
  once : ∀ i j a b, Occupies i a → Occupies j b → a.Before b → a.span.Meets b.span →
    (found.filter fun o => o.second = b.name).length = 1

section Sorted

variable {sorted : List NamedSpan} (names : (sorted.map (·.name)).Nodup)
  (order : sorted.Pairwise NamedSpan.Before)

include names order

/-- What a sweep over ranges in order reports is an overlap of two of them, which are not one and
the same. -/
theorem exists_of_sorted (nonempty : ∀ s ∈ sorted, s.span.start < s.span.stop) {o : Overlap}
    (ho : o ∈ overlapsAfter none sorted) :
    ∃ a ∈ sorted, ∃ b ∈ sorted, a.name ≠ b.name ∧ o.Of a b := by
  obtain ⟨before, s, after, rfl, found⟩ := exists_of_mem_overlapsAfter ho
  obtain ⟨-, -, across⟩ := List.pairwise_append.mp order
  have earlier : ∀ t ∈ before, t.Before s := fun t ht => across t ht s List.mem_cons_self
  have inside : s ∈ before ++ s :: after := List.mem_append_right before List.mem_cons_self
  obtain ⟨r, hr, first, second, meets, shared⟩ :=
    overlap_exact earlier (nonempty s inside) found
  rw [List.map_append, List.map_cons] at names
  refine ⟨r, List.mem_append_left _ hr, s, inside, fun same => ?_, first, second, earlier r hr,
    meets, shared⟩
  exact List.disjoint_of_nodup_append names (List.mem_map_of_mem hr) (same ▸ List.mem_cons_self)

/-- A sweep over ranges in order reports each range once that meets one before it. -/
theorem once_of_sorted {a b : NamedSpan} (ha : a ∈ sorted) (hb : b ∈ sorted) (first : a.Before b)
    (meets : a.span.Meets b.span) :
    ((overlapsAfter none sorted).filter fun o => o.second = b.name).length = 1 := by
  obtain ⟨before, after, rfl⟩ := List.append_of_mem hb
  -- What comes first in order stands before, so the sweep has seen it.
  have inside : a ∈ before := by
    rcases List.mem_append.mp ha with inside | later
    · exact inside
    · obtain ⟨-, others, -⟩ := List.pairwise_append.mp order
      rcases List.mem_cons.mp later with rfl | later
      · exact absurd first first.asymm
      · exact absurd first ((List.pairwise_cons.mp others).1 a later).asymm
  obtain ⟨o, found⟩ := exists_overlap inside meets
  rw [filter_second names, found]
  rfl

end Sorted

/-- **The search for overlaps finds all of them**, when names tell the occupants of the ranges
apart. -/
theorem reports_overlaps {ι : Type} {Occupies : ι → NamedSpan → Prop} {spans : List NamedSpan}
    (names : (spans.map (·.name)).Nodup) (listed : ∀ s, s ∈ spans ↔ ∃ i, Occupies i s)
    (apart : ∀ i j a b, Occupies i a → Occupies j b → (a.name = b.name ↔ i = j)) :
    Reports Occupies (overlaps spans) := by
  -- Empty ranges share nothing, so the sweep is over the others.
  let kept := spans.filter fun s => s.span.start < s.span.stop
  have keptNames : (kept.map (·.name)).Nodup := names.sublist (List.filter_sublist.map _)
  have order : (bySpan kept).Pairwise NamedSpan.Before := bySpan_pairwise keptNames
  have distinct : ((bySpan kept).map (·.name)).Nodup :=
    ((Name.sortOn_perm _ _ kept).map (·.name)).nodup_iff.mpr keptNames
  have mem {s : NamedSpan} : s ∈ bySpan kept ↔ s ∈ spans ∧ s.span.start < s.span.stop := by
    rw [bySpan, Name.mem_sortOn, List.mem_filter, decide_eq_true_eq]
  have overlap : ∀ o ∈ overlaps spans,
      ∃ i j a b, Occupies i a ∧ Occupies j b ∧ i ≠ j ∧ o.Of a b := by
    intro o ho
    obtain ⟨a, ha, b, hb, other, of⟩ :=
      exists_of_sorted distinct order (fun s hs => (mem.mp hs).2) ho
    obtain ⟨i, hi⟩ := (listed a).mp (mem.mp ha).1
    obtain ⟨j, hj⟩ := (listed b).mp (mem.mp hb).1
    exact ⟨i, j, a, b, hi, hj, fun same => other ((apart i j a b hi hj).mpr same), of⟩
  refine ⟨⟨fun quiet i j a b hi hj other meets => ?_, fun disjoint => ?_⟩, overlap,
    fun i j a b hi hj first meets => ?_⟩
  · have : Std.Symm fun a b : NamedSpan => ¬a.span.Meets b.span :=
      ⟨fun a b h meets => h meets.symm⟩
    refine (disjoint_of_overlaps quiet).forall ((listed a).mpr ⟨i, hi⟩) ((listed b).mpr ⟨j, hj⟩)
      (fun same => other ?_) meets
    exact (apart i j a b hi hj).mp (same ▸ rfl)
  · refine List.eq_nil_iff_forall_not_mem.mpr fun o ho => ?_
    obtain ⟨i, j, a, b, hi, hj, other, of⟩ := overlap o ho
    exact disjoint i j a b hi hj other of.meets
  · have bounds := Span.meets_iff.mp meets
    have ha := mem.mpr ⟨(listed a).mpr ⟨i, hi⟩, bounds.2.2.1⟩
    have hb := mem.mpr ⟨(listed b).mpr ⟨j, hj⟩, bounds.2.2.2⟩
    exact once_of_sorted distinct order ha hb first meets

end ChipMap.Map
