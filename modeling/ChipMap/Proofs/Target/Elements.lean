import ChipMap.Proofs.Map.Located
import ChipMap.Proofs.Target.Leads

/-!
# Elements and items

The search for overlaps lists the register elements of a peripheral under names of its own making,
with positions that stop at the greatest word.  **These are the registers that segments lead to,
under their paths** (`Leads.mem_elementSpans`, `exists_of_mem_elementSpans`), and segments lead to
one item (`Leads.unique`).

### What is load-bearing

The list is made from the outside inwards, with a base and a lead that grow, while an item is
reached from the outside inwards too but its distance is a sum.  An element is therefore said as it
would be listed at any base under any lead (`listed`), and one step inwards moves a cluster from the
segments into the base and the lead (`listed_inner`).  Sums of cut-off sums are cut-off sums, which
is what lets the two agree.
-/

namespace ChipMap.Target

open Map (Device Peripheral Cluster Register Field Vector NamedSpan LevelWellFormed Located)
open Name (IsIdentifier)

/-! ### Written numbers -/

/-- The number of an element as it stands behind the name of an array, and nothing for a node that
is none. -/
def numberText : Option Nat → String
  | none => ""
  | some i => "[" ++ toString i ++ "]"

theorem Segment.render_eq (s : Segment) : s.render = s.name ++ numberText s.index := by
  unfold render numberText
  cases s.index with
  | none => simp
  | some i => simp [String.append_assoc]

theorem renderPath_cons (s : Segment) {segments : List Segment} (more : segments ≠ []) :
    renderPath (s :: segments) = s.render ++ "." ++ renderPath segments := by
  cases segments with
  | nil => exact absurd rfl more
  | cons next rest => simp [renderPath, String.intercalate_cons_cons]

theorem renderPath_singleton (s : Segment) : renderPath [s] = s.render := by
  simp [renderPath]

/-! ### Elements of one node -/

/-- The elements of a node are listed with their numbers and their distances, as far as words
go. -/
theorem mem_elements_iff {offset : Word} {vector : Option Vector} {e : String × Nat} :
    e ∈ Map.elements offset vector ↔
      ∃ index distance, ElementAt offset vector index distance ∧
        e = (numberText index, clamp distance) := by
  have element (v : Vector) (i : Nat) : Map.elementOffset offset.toNat i v.stride.toNat =
      clamp (offset.toNat + i * v.stride.toNat) := by
    rw [Map.elementOffset, clampedAdd, clampedMul, Map.clamp_add_clamp]
  constructor
  · intro he
    cases vector with
    | none =>
        obtain rfl := List.mem_singleton.mp he
        exact ⟨none, _, .alone, by rw [clamp_of_le (Word.toNat_le_greatest offset)]; rfl⟩
    | some v =>
        obtain ⟨i, hi, rfl⟩ := List.mem_map.mp he
        exact ⟨some i, _, .element (List.mem_range.mp hi), by rw [element]; rfl⟩
  · rintro ⟨index, distance, h, rfl⟩
    cases h with
    | alone =>
        rw [clamp_of_le (Word.toNat_le_greatest offset)]
        exact List.mem_singleton.mpr rfl
    | @element v i inside =>
        exact List.mem_map.mpr ⟨i, List.mem_range.mpr inside, by rw [element]; rfl⟩

/-- What a name is listed as. -/
def listed (base : Nat) (lead : String) (segments : List Segment) (l : Located) : NamedSpan :=
  ⟨lead ++ renderPath segments, l.clampedSpan base⟩

theorem mem_register_elementSpans_iff {base : Nat} {lead : String} {r : Register}
    {s : NamedSpan} :
    s ∈ r.elementSpans base lead ↔ ∃ index distance,
      ElementAt r.addressOffset r.vector index distance ∧
        s = listed base lead [⟨r.name, index⟩] ⟨distance, r⟩ := by
  have element (index : Option Nat) (distance : Nat) :
      (⟨lead ++ r.name ++ numberText index, ⟨clampedAdd base (clamp distance),
        clampedAdd (clampedAdd base (clamp distance)) r.byteSize⟩⟩ : NamedSpan) =
      listed base lead [⟨r.name, index⟩] ⟨distance, r⟩ := by
    simp only [listed, Located.clampedSpan, renderPath_singleton, Segment.render_eq, clampedAdd,
      Map.clamp_add_clamp, Map.clamp_clamp_add, String.append_assoc]
  unfold Register.elementSpans
  constructor
  · intro hs
    obtain ⟨e, he, rfl⟩ := List.mem_map.mp hs
    obtain ⟨index, distance, at_, rfl⟩ := mem_elements_iff.mp he
    exact ⟨index, distance, at_, element index distance⟩
  · rintro ⟨index, distance, at_, rfl⟩
    exact List.mem_map.mpr ⟨_, mem_elements_iff.mpr ⟨index, distance, at_, rfl⟩,
      element index distance⟩

/-- What is listed for the inside of a cluster, as the outer node sees it. -/
theorem listed_inner {base distance : Nat} {lead : String} {s : Segment}
    {segments : List Segment} (more : segments ≠ []) (l : Located) :
    listed (clampedAdd base (clamp distance)) (lead ++ s.name ++ numberText s.index ++ ".")
      segments l = listed base lead (s :: segments) (l.shift distance) := by
  simp only [listed, renderPath_cons s more, Segment.render_eq, String.append_assoc, clampedAdd,
    Map.clamp_add_clamp, Located.clampedSpan_clamp, Located.clampedSpan_shift]

/-! ### Elements at any depth -/

theorem Leads.of_register {r r' : Register} {a a' : Word} {segments : List Segment} {n : Nat}
    (h : Leads (.register r a) segments (.register r' a') n) :
    segments = [] ∧ n = 0 ∧ r' = r := by
  cases h with
  | here => exact ⟨rfl, rfl, rfl⟩
  | step first rest =>
      cases first with
      | register hr _ => cases hr
      | cluster hc _ => cases hc
      | field _ =>
          cases rest with
          | step second _ =>
              cases second with
              | register hr _ => cases hr
              | cluster hc _ => cases hc

/-- **Each register that segments lead to is listed** under its path. -/
theorem Leads.mem_elementSpans {outer item : Item} {segments : List Segment} {n : Nat}
    (h : Leads outer segments item n) (some_segment : segments ≠ []) {r : Register} {a : Word}
    (register : item = .register r a) (base : Nat) (lead : String) :
    listed base lead segments ⟨n, r⟩ ∈
      Map.elementSpans base lead outer.registers outer.clusters := by
  induction h generalizing base lead with
  | here => exact absurd rfl some_segment
  | @step outer inner item s segments k n first rest ih =>
      subst register
      cases first with
      | @register _ r' index _ hr at_ =>
          obtain ⟨rfl, rfl, rfl⟩ := rest.of_register
          refine List.mem_append_left _ (List.mem_flatMap.mpr ⟨r, hr, ?_⟩)
          exact mem_register_elementSpans_iff.mpr ⟨index, k, at_, rfl⟩
      | @cluster _ c index _ hc at_ =>
          have more : segments ≠ [] := by
            rintro rfl
            cases rest
          refine List.mem_append_right _ (List.mem_flatMap.mpr ⟨c, hc, ?_⟩)
          rw [Map.Cluster.elementSpans_eq]
          refine List.mem_flatMap.mpr ⟨_, mem_elements_iff.mpr ⟨index, k, at_, rfl⟩, ?_⟩
          -- One step inwards, the segment of the cluster becomes part of the lead.
          have inside := ih more rfl (clampedAdd base (clamp k))
            (lead ++ c.name ++ numberText index ++ ".")
          have here : (⟨n, r⟩ : Located).shift k = ⟨k + n, r⟩ := rfl
          rw [← here, ← listed_inner (s := ⟨c.name, index⟩) more]
          exact inside
      | field _ =>
          cases rest with
          | step second _ =>
              cases second with
              | register hr _ => cases hr
              | cluster hc _ => cases hc

/-- **Each listed element is a register that segments lead to**, by induction over the
clusters. -/
theorem exists_of_mem_elementSpans (clusters : List Cluster) : ∀ outer : Item,
    outer.clusters = clusters → ∀ {base : Nat} {lead : String} {s : NamedSpan},
      s ∈ Map.elementSpans base lead outer.registers outer.clusters →
        ∃ segments r a n, segments ≠ [] ∧ Leads outer segments (.register r a) n ∧
          s = listed base lead segments ⟨n, r⟩ := by
  induction clusters using Map.clusters_step with
  | step clusters ih =>
      intro outer same base lead s hs
      rcases List.mem_append.mp hs with hs | hs
      · obtain ⟨r, hr, hs⟩ := List.mem_flatMap.mp hs
        obtain ⟨index, distance, at_, rfl⟩ := mem_register_elementSpans_iff.mp hs
        exact ⟨[⟨r.name, index⟩], r, _, distance + 0, by simp, .step (.register hr at_) .here, rfl⟩
      · obtain ⟨c, hc, hs⟩ := List.mem_flatMap.mp hs
        rw [Map.Cluster.elementSpans_eq] at hs
        obtain ⟨e, he, hs⟩ := List.mem_flatMap.mp hs
        obtain ⟨index, distance, at_, rfl⟩ := mem_elements_iff.mp he
        let inner : Item := .cluster c (outer.address + BitVec.ofNat 64 distance)
        obtain ⟨segments, r, a, n, more, leads, rfl⟩ :=
          ih c (same ▸ hc) inner rfl hs
        refine ⟨⟨c.name, index⟩ :: segments, r, a, distance + n, by simp,
          .step (.cluster hc at_) leads, ?_⟩
        exact listed_inner (s := ⟨c.name, index⟩) more ⟨n, r⟩

/-! ### One item for each path -/

theorem ElementAt.unique {offset : Word} {vector : Option Vector} {index : Option Nat}
    {distance distance' : Nat} (h : ElementAt offset vector index distance)
    (h' : ElementAt offset vector index distance') : distance = distance' := by
  cases h with
  | alone =>
      cases h' with
      | alone => rfl
  | element _ =>
      cases h' with
      | element _ => rfl

theorem Item.Holds.distance_eq {outer inner : Item} {s s' : Segment} {k k' : Nat}
    (h : outer.Holds s inner k) (h' : outer.Holds s' inner k') (same : s.index = s'.index) :
    k = k' := by
  generalize hinner : inner = other at h'
  cases h with
  | register _ at_ =>
      cases h' with
      | register _ at_' =>
          obtain ⟨rfl, -⟩ := Item.register.inj hinner
          dsimp only at same
          exact at_.unique (same ▸ at_')
      | cluster _ _ => cases hinner
      | field _ => cases hinner
  | cluster _ at_ =>
      cases h' with
      | register _ _ => cases hinner
      | cluster _ at_' =>
          obtain ⟨rfl, -⟩ := Item.cluster.inj hinner
          dsimp only at same
          exact at_.unique (same ▸ at_')
      | field _ => cases hinner
  | field _ =>
      cases h' with
      | register _ _ => cases hinner
      | cluster _ _ => cases hinner
      | field _ => rfl

/-- A segment names one item inside a well-formed one, at one distance. -/
theorem Item.Holds.unique {outer inner inner' : Item} {s : Segment} {k k' : Nat}
    (h : outer.Holds s inner k) (h' : outer.Holds s inner' k') (wellFormed : outer.WellFormed) :
    inner = inner' ∧ k = k' := by
  have same : inner = inner' :=
    Except.ok.inj ((h.enter wellFormed "" "").symm.trans (h'.enter wellFormed "" ""))
  subst same
  exact ⟨rfl, h.distance_eq h' rfl⟩

/-- **Segments lead to one item**, at one distance. -/
theorem Leads.unique {outer item item' : Item} {segments : List Segment} {n n' : Nat}
    (h : Leads outer segments item n) (h' : Leads outer segments item' n')
    (wellFormed : outer.WellFormed) : item = item' ∧ n = n' := by
  induction h generalizing n' with
  | here =>
      cases h' with
      | here => exact ⟨rfl, rfl⟩
  | step first _ ih =>
      cases h' with
      | step first' rest' =>
          obtain ⟨rfl, rfl⟩ := first.unique first' wellFormed
          obtain ⟨rfl, rfl⟩ := ih rest' (first.wellFormed wellFormed)
          exact ⟨rfl, rfl⟩

end ChipMap.Target
