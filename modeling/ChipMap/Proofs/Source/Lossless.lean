import ChipMap.Proofs.Map.OfText
import ChipMap.Proofs.Source.Apart
import ChipMap.Proofs.Source.Sound

/-!
# No register is lost

The search for overlaps looks at the bytes of registers, and structs are made of the room of
members, which is rounded up.  When no overlap of registers is reported and every slot fits, **no
register is lost exactly when rounding up adds no overlap** (`lossless_iff`).

### What is load-bearing

The structs that members lead to stand for the levels of the peripheral, and for each level with a
piece there is one (`Reached.exists_level`, `Level.exists_stands`).  So both directions are said
level by level, where slots share bytes exactly as pieces do.

An element has a byte at least (`Sized`), so registers of one place, whose slots are merged, are an
overlap of elements too.  It has no more bytes than its integer, so in a peripheral whose slots fit
no span of an element is cut off (`Fits.located`).

`not_lossless_crowded` shows that both are needed: it has a peripheral in which rounding up adds an
overlap, and one with a slot that does not fit, and no overlap is reported in either.
-/

namespace ChipMap.Source

open Map (Register Cluster Peripheral Located LevelWellFormed)

variable {structs : List StructDecl}

/-! ### Structs and levels -/

theorem pieces_eq_nil_of_blocks {p : Peripheral} (none : (shapePeripheral p).blocks = []) :
    pieces p.registers p.clusters = [] := by
  obtain ⟨nested, inner, shaped, own, -⟩ := shapePeripheral_shaped p
  rw [none] at own
  exact own.pieces_eq_nil shaped

theorem Fits.exists_head {p : Peripheral} (fits : Fits p) (some : pieces p.registers p.clusters ≠ []) :
    ∃ b, b.declaration ∈ (structsOf p).head? ∧ Stands (structsOf p) b p.registers p.clusters := by
  obtain ⟨own, -⟩ := fits.stands
  rw [structsOf_eq] at own ⊢
  cases blocks : (shapePeripheral p).blocks with
  | nil => exact absurd (pieces_eq_nil_of_blocks blocks) some
  | cons first behind =>
      rw [blocks] at own
      exact ⟨first, rfl, own first rfl⟩

/-- **A struct that members lead to stands for a level.** -/
theorem Reached.exists_level {p : Peripheral} (fits : Fits p) {d : StructDecl}
    (h : Reached (structsOf p) d) : ∃ b registers clusters, d = b.declaration ∧
      Stands (structsOf p) b registers clusters ∧ Level p registers clusters := by
  have names := structsOf_names p
  induction h with
  | root hd =>
      rw [structsOf_eq, List.head?_map] at hd
      obtain ⟨b, hb, rfl⟩ := Option.map_eq_some_iff.mp hd
      exact ⟨b, _, _, rfl, fits.stands.1 b hb, .own⟩
  | @inner d e s name count _ hs kind he same ih =>
      obtain ⟨b, registers, clusters, rfl, stands, level⟩ := ih
      obtain ⟨t, ht, like⟩ := exists_like_of_field hs
      obtain ⟨group, takes, inside⟩ := (stands.grouped names).exists_group ht
      obtain ⟨q, hq, -⟩ := takes.exists_piece takes.present
      have of := (takes.holds q hq).like like.kind
      rw [kind] at of
      obtain ⟨c, node, b', rfl, stands'⟩ := of
      obtain ⟨hc, some⟩ := mem_of_piece (inside q hq) node
      refine ⟨b', c.registers, c.clusters, ?_, stands', level.inner hc some⟩
      rw [← declaration_name b'] at same
      exact List.inj_on_of_nodup_map names he stands'.declared same

/-- **Each level with a piece has a struct** that members lead to, when nothing is left out. -/
theorem Level.exists_stands {p : Peripheral} (fits : Fits p)
    (quiet : ∀ d, Reached (structsOf p) d → Quiet d) {registers : List Register}
    {clusters : List Cluster} (h : Level p registers clusters)
    (some : pieces registers clusters ≠ []) :
    ∃ b, Reached (structsOf p) b.declaration ∧ Stands (structsOf p) b registers clusters := by
  have names := structsOf_names p
  induction h with
  | own =>
      obtain ⟨b, head, stands⟩ := fits.exists_head some
      exact ⟨b, .root head, stands⟩
  | @inner registers clusters c _ hc elements ih =>
      obtain ⟨q, hq, node⟩ := @exists_piece_of_cluster registers _ _ hc elements some
      obtain ⟨b, reached, stands⟩ := ih (List.ne_nil_of_mem hq)
      -- A piece of the cluster is taken by a slot of the level around, and that slot names the
      -- struct.
      obtain ⟨s, hs, group, takes, member⟩ := (stands.grouped names).exists_slot hq
      have of := takes.holds q member
      cases kind : s.kind with
      | register =>
          rw [kind] at of
          obtain ⟨r, other, -⟩ := of
          cases node.symm.trans other
      | block name count =>
          rw [kind] at of
          obtain ⟨c', node', b', same, stands'⟩ := of
          obtain rfl := Map.Entry.cluster.inj (node.symm.trans node')
          have field := (disjoint_of_quiet (stands.nonempty names) (stands.counts names)
            (quiet _ reached)).2 s hs (congrArg SlotKind.scalar? kind)
          refine ⟨b', reached.inner field kind stands'.declared ?_, stands'⟩
          rw [declaration_name, same]

/-! ### Members of register elements -/

/-- How many elements there are does not matter for what is in one of them. -/
theorem MemberAt.count {name : String} {count count' : Option Nat} {offset : Nat}
    {storage : Storage} (h : MemberAt structs (.block name count) offset storage) :
    MemberAt structs (.block name count') offset storage := by
  cases h with
  | block hd hs hi member => exact .block hd hs hi member

/-- **Each register element has a member** when all slots are members: by induction on the
clusters, from the inside. -/
theorem Stands.member (names : (structs.map (·.name)).Nodup) {p : Peripheral}
    (kept : ∀ b registers clusters, Stands structs b registers clusters →
      Level p registers clusters → ∀ s ∈ b.slots, .field s ∈ b.declaration.entries)
    (clusters : List Cluster) : ∀ (registers : List Register) (b : Block),
      Stands structs b registers clusters → Level p registers clusters →
        ∀ l ∈ Map.located registers clusters,
          MemberAt structs (.block b.name none) l.offset (Storage.ofSize l.register.size) := by
  induction clusters using Map.clusters_step with
  | step clusters ih =>
      intro registers b stands level l hl
      rw [← flatMap_elements] at hl
      obtain ⟨q, hq, hl⟩ := List.mem_flatMap.mp hl
      obtain ⟨s, hs, group, takes, member⟩ := (stands.grouped names).exists_slot hq
      obtain ⟨i, hi, room⟩ := takes.exists_element member
      have start : q.offset = s.offset + i * s.kind.elementBytes structs := congrArg Span.start room
      -- What is left of the way is inside one element of the slot.
      have inside : ∃ inner, l.offset = q.offset + inner ∧
          MemberAt structs s.kind inner (Storage.ofSize l.register.size) := by
        have of := takes.holds q member
        unfold Piece.elements at hl
        cases kind : s.kind with
        | register =>
            rw [kind] at of
            obtain ⟨r, node, rfl⟩ := of
            rw [node] at hl
            obtain rfl := List.mem_singleton.mp hl
            exact ⟨0, rfl, .register⟩
        | block name count =>
            rw [kind] at of
            obtain ⟨c, node, b', rfl, stands'⟩ := of
            rw [node] at hl
            obtain ⟨l', hl', rfl⟩ := List.mem_map.mp hl
            obtain ⟨hc, elements⟩ := mem_of_piece hq node
            have found := ih c hc c.registers b' stands' (level.inner hc elements) l' hl'
            exact ⟨l'.offset, rfl, found.count⟩
      obtain ⟨inner, place, found⟩ := inside
      rw [place, start, ← declaration_name b]
      exact .block stands.declared (kept b registers clusters stands level s hs) hi found

/-! ### Sizes -/

/-- **An element has a byte**, and no more of them than its integer. -/
def Sized (l : Located) : Prop :=
  0 < l.register.byteSize ∧ l.register.byteSize ≤ (Storage.ofSize l.register.size).bytes

/-- The integer of a register has its bytes. -/
theorem byteSize_le_bytes {r : Register} (h : r.size ≤ 64) :
    r.byteSize ≤ (Storage.ofSize r.size).bytes := by
  have bits := Storage.le_bits_ofSize h
  rw [Register.byteSize]
  cases storage : Storage.ofSize r.size with
  | u8 | u16 | u32 | u64 =>
      rw [storage] at bits
      simp only [Storage.bits, Storage.bytes] at bits ⊢
      omega

theorem sized_of_levelWellFormed {registers : List Register} {clusters : List Cluster}
    (h : LevelWellFormed registers clusters) : ∀ l ∈ Map.located registers clusters, Sized l := by
  induction h with
  | level wellFormed _ _ _ _ _ ih =>
      intro l hl
      rcases List.mem_append.mp hl with hl | hl
      · obtain ⟨r, hr, hl⟩ := List.mem_flatMap.mp hl
        obtain ⟨offset, -, rfl⟩ := List.mem_map.mp hl
        obtain ⟨least, greatest⟩ := (wellFormed r hr).size
        refine ⟨?_, byteSize_le_bytes greatest⟩
        simp only [Register.byteSize]
        omega
      · obtain ⟨c, hc, hl⟩ := List.mem_flatMap.mp hl
        rw [Map.Cluster.located_eq] at hl
        obtain ⟨base, -, hl⟩ := List.mem_flatMap.mp hl
        obtain ⟨l', hl', rfl⟩ := List.mem_map.mp hl
        exact ih c hc l' hl'

theorem Level.wellFormed {p : Peripheral} {registers : List Register} {clusters : List Cluster}
    (h : Level p registers clusters) (well : LevelWellFormed p.registers p.clusters) :
    LevelWellFormed registers clusters := by
  induction h with
  | own => exact well
  | inner _ hc _ ih =>
      cases ih with
      | level _ _ inside _ _ _ => exact inside _ hc

/-- The elements of a peripheral whose slots fit end where a word can say it. -/
theorem Fits.located {p : Peripheral} (fits : Fits p) (sized : ∀ l ∈ p.located, Sized l) :
    ∀ l ∈ p.located, l.span.stop ≤ Word.greatest := by
  intro l hl
  have bytes := (sized l hl).2
  rw [Peripheral.located, ← flatMap_elements] at hl
  obtain ⟨q, hq, hl⟩ := List.mem_flatMap.mp hl
  obtain ⟨b, -, stands⟩ := fits.exists_head (List.ne_nil_of_mem hq)
  obtain ⟨s, hs, group, takes, member⟩ :=
    (stands.grouped (structsOf_names p)).exists_slot hq
  have own := (pieces_hold q hq l hl).2
  have slot := (takes.room_le member).2
  have ends : s.offset + s.bytes (structsOf p) ≤ Word.greatest := stands.fits s hs
  simp only [Located.span]
  omega

/-! ### Peripherals -/

/-- **Nothing is lost** when register elements share no byte and the room of members adds no
overlap. -/
theorem AddsNoOverlap.lossless {p : Peripheral} (added : AddsNoOverlap p) (fits : Fits p)
    (apart : p.located.Pairwise fun a b => ¬a.span.Meets b.span) : Lossless p := by
  have names := structsOf_names p
  have level : ∀ b registers clusters, Stands (structsOf p) b registers clusters →
      Level p registers clusters → Quiet b.declaration ∧
        ∀ s ∈ b.slots, .field s ∈ b.declaration.entries := by
    intro b registers clusters stands level
    exact quiet_of_disjoint (stands.nonempty names)
      ((stands.grouped names).slots_disjoint stands.fits (added.disjoint apart level))
  refine ⟨fun l hl => ?_, fun d hd => ?_⟩
  · have some : pieces p.registers p.clusters ≠ [] := by
      intro none
      rw [Peripheral.located, ← flatMap_elements, none] at hl
      cases hl
    obtain ⟨b, head, stands⟩ := fits.exists_head some
    refine ⟨b.declaration, head, ?_⟩
    rw [declaration_name]
    exact Stands.member names (fun b r c stands at_ => (level b r c stands at_).2) p.clusters
      p.registers b stands .own l hl
  · obtain ⟨b, registers, clusters, rfl, stands, at_⟩ := hd.exists_level fits
    exact (level b registers clusters stands at_).1

/-- **The room of members adds no overlap** when nothing is lost. -/
theorem Lossless.addsNoOverlap {p : Peripheral} (lossless : Lossless p) (fits : Fits p)
    (well : LevelWellFormed p.registers p.clusters) : AddsNoOverlap p := by
  have names := structsOf_names p
  intro registers clusters level
  rcases eq_or_ne (pieces registers clusters) [] with none | some
  · rw [none]
    exact .nil
  obtain ⟨b, reached, stands⟩ := level.exists_stands fits lossless.quiet some
  have merged := (disjoint_of_quiet (stands.nonempty names) (stands.counts names)
    (lossless.quiet _ reached)).1
  have shared := (stands.grouped names).pieces_shared stands.fits merged
  have sized := sized_of_levelWellFormed (level.wellFormed well)
  rw [← flatMap_elements] at sized
  refine shared.imp_of_mem fun {a b} ha hb shared meets => ?_
  obtain ⟨r, r', node, node', place⟩ := shared meets
  -- Registers of one place share the byte at that place.
  have hl : (⟨a.offset, r⟩ : Located) ∈ a.elements := by
    rw [Piece.elements, node]
    exact List.mem_cons_self
  have hm : (⟨b.offset, r'⟩ : Located) ∈ b.elements := by
    rw [Piece.elements, node']
    exact List.mem_cons_self
  have positive := (sized _ (List.mem_flatMap.mpr ⟨a, ha, hl⟩)).1
  have positive' := (sized _ (List.mem_flatMap.mpr ⟨b, hb, hm⟩)).1
  refine ⟨_, hl, _, hm, Span.meets_iff.mpr ?_⟩
  simp only [Located.span] at positive positive' ⊢
  omega

/-- A peripheral of a map for which no overlap of registers is reported. -/
theorem overlaps_eq_nil_of_warnings {d : Map.Device} {p : Peripheral} (hp : p ∈ d.peripherals)
    (quiet : ∀ o, .registers p.name o ∉ Map.warnings d) : Map.overlaps p.elementSpans = [] := by
  refine List.eq_nil_iff_forall_not_mem.mpr fun o ho => quiet o ?_
  refine List.mem_append_left _ (List.mem_flatMap.mpr ⟨p, hp, ?_⟩)
  exact List.mem_map_of_mem ho

/-- **No register is lost exactly when the room of members adds no overlap**: for every
peripheral of the map of a document for which no overlap of registers is reported, if no
slot ends beyond the greatest word. -/
theorem lossless_iff {text : String} {checked : Map.Checked} {p : Peripheral}
    (h : Map.ofText text = .ok checked) (hp : p ∈ checked.device.peripherals)
    (quiet : ∀ o, .registers p.name o ∉ checked.warnings) (fits : Fits p) :
    Lossless p ↔ AddsNoOverlap p := by
  obtain ⟨device, wellFormed, rfl⟩ := Map.exists_wellFormed h
  have well := (wellFormed.peripherals p hp).level
  have apart := Map.disjoint_of_quiet (overlaps_eq_nil_of_warnings hp quiet)
    (fits.located (sized_of_levelWellFormed well))
  exact ⟨fun lossless => lossless.addsNoOverlap fits well,
    fun added => added.lossless fits apart⟩

/-! ### Documents -/

theorem addsNoOverlap_of_registers {p : Peripheral} (none : p.clusters = [])
    (h : (p.registers.flatMap registerPieces).Pairwise fun a b =>
      a.room.Meets b.room → ∃ l ∈ a.elements, ∃ m ∈ b.elements, l.span.Meets m.span) :
    AddsNoOverlap p := by
  have only {registers : List Register} {clusters : List Cluster}
      (level : Level p registers clusters) : registers = p.registers ∧ clusters = [] := by
    induction level with
    | own => exact ⟨rfl, none⟩
    | inner _ hc _ ih =>
        rw [ih.2] at hc
        cases hc
  intro registers clusters level
  obtain ⟨rfl, rfl⟩ := only level
  rw [pieces, List.flatMap_nil, List.append_nil]
  exact h

theorem lossless_iff_sample : ∃ checked, Map.ofText Map.sample = .ok checked ∧
    Map.twins ∈ checked.device.peripherals ∧
    (∀ o, .registers Map.twins.name o ∉ checked.warnings) ∧ Fits Map.twins ∧
    Lossless Map.twins := by
  obtain ⟨checked, h, peripherals, warnings⟩ := Map.ofText_sample
  have member : Map.twins ∈ checked.device.peripherals := by
    rw [peripherals]
    exact List.mem_cons_self
  have quiet : ∀ o, .registers Map.twins.name o ∉ checked.warnings := by
    rw [warnings]
    exact fun _ => List.not_mem_nil
  have fits : Fits Map.twins := by decide +kernel
  have added : AddsNoOverlap Map.twins := addsNoOverlap_of_registers rfl (by decide)
  exact ⟨checked, h, member, quiet, fits, (lossless_iff h member quiet fits).mpr added⟩

/-- A document with a register of three bytes and one right behind it, and with two registers
of one place at the greatest address. -/
def crowded : String :=
  "<device><name>D</name><peripherals><peripheral><name>P</name><baseAddress>0</baseAddress>
  <registers><register><name>A</name><addressOffset>0</addressOffset><size>24</size></register>
  <register><name>B</name><addressOffset>3</addressOffset><size>8</size></register></registers>
  </peripheral><peripheral><name>Q</name><baseAddress>0x1000</baseAddress><registers><cluster>
  <name>C</name><addressOffset>0xFFFFFFFFFFFFFFFF</addressOffset><register><name>A</name>
  <addressOffset>0</addressOffset></register><register><name>B</name><addressOffset>0</addressOffset>
  <size>16</size></register></cluster></registers></peripheral></peripherals></device>"

/-- The first register takes the byte of the second one. -/
def packed : Peripheral where
  name := "P"
  description := none
  groupName := none
  baseAddress := 0
  addressRange := ⟨0, 4⟩
  interrupts := []
  registers := [.plain "A" 0 24, .plain "B" 3 8]
  clusters := []

/-- No byte of the registers has an address, so no overlap is found. -/
def farthest : Peripheral where
  name := "Q"
  description := none
  groupName := none
  baseAddress := 0x1000
  addressRange := ⟨Word.greatest, Word.greatest⟩
  interrupts := []
  registers := []
  clusters := [⟨"C", none, 0xFFFFFFFFFFFFFFFF, none, [.plain "A" 0 32, .plain "B" 0 16], []⟩]

set_option maxRecDepth 8000 in
theorem ofText_crowded : ∃ checked, Map.ofText crowded = .ok checked ∧
    checked.device.peripherals = [packed, farthest] ∧ checked.warnings = [] := by
  have written : crowded = String.ofList _ := rfl
  have read := Description.ofText_eq written
  refine Map.exists_of_parts ?_
  rw [Map.ofText, Map.resolvedOfText, read]
  cbv

theorem packed_structs : structsOf packed =
    [⟨"P", [.field ⟨0, 4, "a", .register true true .u32 none none⟩,
        .remark ⟨3, 1, "b", .register true true .u8 none none⟩], 4⟩] := by
  have blocks : (shapePeripheral packed).blocks =
      [⟨"P", 4, [⟨0, 4, "a", .register true true .u32 none none⟩,
        ⟨3, 1, "b", .register true true .u8 none none⟩]⟩] := by
    decide +kernel
  rw [structsOf_eq, blocks]
  cbv

theorem farthest_structs : structsOf farthest =
    [⟨"Q", [.reserved 0 0, .field ⟨Word.greatest, 4, "c", .block "QC" none⟩], Word.greatest⟩,
      ⟨"QC", [.field ⟨0, 4, "a", .register true true .u32 none none⟩,
        .remark ⟨0, 2, "b", .register true true .u16 none none⟩], 4⟩] := by
  have blocks : (shapePeripheral farthest).blocks =
      [⟨"Q", Word.greatest, [⟨Word.greatest, 4, "c", .block "QC" none⟩]⟩,
        ⟨"QC", 4, [⟨0, 4, "a", .register true true .u32 none none⟩,
          ⟨0, 2, "b", .register true true .u16 none none⟩]⟩] := by
    decide +kernel
  rw [structsOf_eq, blocks]
  cbv

/-- The two levels of the second peripheral. -/
theorem farthest_addsNoOverlap : AddsNoOverlap farthest := by
  have only {registers : List Register} {clusters : List Cluster}
      (level : Level farthest registers clusters) :
      registers = [] ∧ clusters = farthest.clusters ∨
        registers = [.plain "A" 0 32, .plain "B" 0 16] ∧ clusters = [] := by
    induction level with
    | own => exact .inl ⟨rfl, rfl⟩
    | inner _ hc _ ih =>
        rcases ih with ⟨-, rfl⟩ | ⟨-, rfl⟩
        · obtain rfl := List.mem_singleton.mp hc
          exact .inr ⟨rfl, rfl⟩
        · cases hc
  intro registers clusters level
  rcases only level with ⟨rfl, rfl⟩ | ⟨rfl, rfl⟩
  · -- Its own level has one piece.
    rw [pieces, farthest, List.flatMap_nil, List.nil_append, List.flatMap_singleton,
      clusterPieces_eq]
    split
    · exact .nil
    · exact List.pairwise_singleton _ _
  · rw [pieces, List.flatMap_nil, List.append_nil]
    decide

/-- **A register may be left out though no overlap is reported**: with a remark only, because
rounding up adds an overlap, or because a slot does not fit. -/
theorem not_lossless_crowded : ∃ checked, Map.ofText crowded = .ok checked ∧
    checked.warnings = [] ∧
    (packed ∈ checked.device.peripherals ∧ Fits packed ∧ ¬Lossless packed) ∧
    (farthest ∈ checked.device.peripherals ∧ AddsNoOverlap farthest ∧ ¬Lossless farthest) := by
  obtain ⟨checked, h, peripherals, warnings⟩ := ofText_crowded
  refine ⟨checked, h, warnings, ⟨?_, by decide +kernel, fun lossless => ?_⟩,
    ?_, farthest_addsNoOverlap, fun lossless => ?_⟩
  · rw [peripherals]
    exact List.mem_cons_self
  · have quiet := lossless.quiet
    rw [packed_structs] at quiet
    exact quiet _ (.root rfl) _ (List.mem_cons_of_mem _ List.mem_cons_self)
  · rw [peripherals]
    exact List.mem_cons_of_mem _ List.mem_cons_self
  · have quiet := lossless.quiet
    rw [farthest_structs] at quiet
    exact quiet _ (.inner (.root rfl) (List.mem_cons_of_mem _ List.mem_cons_self) rfl
      (List.mem_cons_of_mem _ List.mem_cons_self) rfl) _
      (List.mem_cons_of_mem _ List.mem_cons_self)

end ChipMap.Source
