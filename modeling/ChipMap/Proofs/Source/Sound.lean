import ChipMap.Proofs.Map.OfText
import ChipMap.Proofs.Source.Stands

/-!
# The layout of structs is sound

When no slot ends beyond the greatest word, **the structs of a peripheral are laid out as its map
says** (`shapePeripheral_sound`): no arithmetic was clamped, so slots count on the sizes that
structs have, entries follow each other, and every register member leads back to a register element.

### What is load-bearing

A register member of a piece is one of its elements (`MemberAt.backed`).  That is said of the piece
and the kind of its slot, so the derivation that finds a member carries the induction: one step
inwards goes from a piece to a piece of the struct it stands for.

A member names its struct, and a name could lead to another struct than the one that was meant.
Names are distinct (`structsOf_names`), so there is one struct of the name.
-/

namespace ChipMap.Source

open Map (Register Cluster Peripheral Vector Located)

variable {structs : List StructDecl}

/-! ### Members of pieces -/

/-- Kinds that are alike have the same pieces, so a merged slot has those of the slots it is made
of. -/
theorem Piece.Of.like {q : Piece} {k k' : SlotKind}
    (h : q.Of structs k') (like : k.Like k') : q.Of structs k := by
  cases like with
  | refl => exact h
  | register => exact h

section Named

variable (names : (structs.map (·.name)).Nodup)

include names

/-- **A register member of a piece is one of its elements**, by induction on the way to the
member. -/
theorem MemberAt.backed {kind : SlotKind} {offset : Nat} {storage : Storage}
    (h : MemberAt structs kind offset storage) :
    ∀ {q : Piece}, q.Of structs kind →
      ∃ l ∈ q.elements, l.offset = q.offset + offset ∧
        Storage.ofSize l.register.size = storage := by
  induction h with
  | register =>
      rintro q ⟨r, node, rfl⟩
      refine ⟨⟨q.offset, r⟩, ?_, rfl, rfl⟩
      rw [Piece.elements, node]
      exact List.mem_cons_self
  | @block d s count i offset storage hd hs hi _ ih =>
      rintro q ⟨c, node, b, name, stands⟩
      -- The struct that the member leads to is the one that stands for the cluster, as names are
      -- distinct.
      rw [← declaration_name] at name
      obtain rfl := List.inj_on_of_nodup_map names stands.declared hd name
      obtain ⟨t, ht, like⟩ := exists_like_of_field hs
      obtain ⟨group, takes, inside⟩ := (stands.grouped names).exists_group ht
      rw [like.kind.elements_eq] at hi
      obtain ⟨q', hq', room⟩ := takes.exists_piece hi
      obtain ⟨l, hl, place, same⟩ := ih ((takes.holds q' hq').like like.kind)
      refine ⟨l.shift q.offset, ?_, ?_, same⟩
      · rw [Piece.elements, node]
        refine List.mem_map.mpr ⟨l, ?_, rfl⟩
        rw [← flatMap_elements]
        exact List.mem_flatMap.mpr ⟨q', inside q' hq', hl⟩
      · have start : q'.offset = t.offset + i * t.kind.elementBytes structs :=
          congrArg Span.start room
        rw [Located.shift, place, start, like.offset, like.kind.elementBytes_eq]

/-- **A slot of structs counts on the size that their struct has.** -/
theorem Stands.counted {b : Block} {registers : List Register} {clusters : List Cluster}
    (h : Stands structs b registers clusters) {s : Slot} (hs : s ∈ b.slots) {name : String}
    {count : Option Nat} (kind : s.kind = .block name count) :
    ∃ d ∈ structs, d.name = name ∧ s.size = s.kind.elements * d.stop := by
  obtain ⟨group, takes, -⟩ := (h.grouped names).exists_group hs
  obtain ⟨q, hq, -⟩ := takes.exists_piece takes.present
  have of := takes.holds q hq
  rw [kind] at of
  obtain ⟨_, _, b', rfl, stands⟩ := of
  refine ⟨b'.declaration, stands.declared, declaration_name b', ?_⟩
  rw [takes.counted, Slot.bytes, kind, SlotKind.elementBytes,
    ← structBytes_eq names stands.declared, declaration_name]

end Named

/-! ### Peripherals -/

theorem structsOf_eq (p : Peripheral) :
    structsOf p = (shapePeripheral p).blocks.map Block.declaration := rfl

theorem structsOf_names (p : Peripheral) : ((structsOf p).map (·.name)).Nodup := by
  obtain ⟨-, -, -, -, names⟩ := shapePeripheral_shaped p
  have same : (structsOf p).map (·.name) = (shapePeripheral p).blocks.map (·.name) := by
    rw [structsOf_eq, List.map_map]
    exact List.map_congr_left fun b _ => declaration_name b
  rw [same]
  exact names

/-- **The structs of a peripheral stand for its nodes**, the first one for its own. -/
theorem Fits.stands {p : Peripheral} (fits : Fits p) :
    (∀ b ∈ (shapePeripheral p).blocks.head?, Stands (structsOf p) b p.registers p.clusters) ∧
      ∀ b ∈ (shapePeripheral p).blocks,
        ∃ registers clusters, Stands (structsOf p) b registers clusters := by
  obtain ⟨nested, inner, shaped, own, -⟩ := shapePeripheral_shaped p
  have emitted : Emitted (structsOf p) (shapePeripheral p).blocks :=
    fun b hb => ⟨List.mem_map_of_mem hb, fits b hb⟩
  generalize (shapePeripheral p).blocks = blocks at own emitted ⊢
  cases blocks with
  | nil => exact ⟨(fun b hb => nomatch hb), (fun b hb => nomatch hb)⟩
  | cons first behind =>
      obtain rfl := own.eq_cons
      have stands : Stands (structsOf p) first p.registers p.clusters :=
        ⟨none, nested, behind, shaped, own, emitted⟩
      refine ⟨?_, fun b hb => ?_⟩
      · rintro b ⟨⟩
        exact stands
      · rcases List.mem_cons.mp hb with rfl | hb
        · exact ⟨_, _, stands⟩
        · exact shaped.stands (fun b hb => emitted b (List.mem_cons_of_mem _ hb)) b hb

theorem Stands.backed {structs : List StructDecl} (names : (structs.map (·.name)).Nodup)
    {b : Block} {p : Peripheral} (h : Stands structs b p.registers p.clusters) {offset : Nat}
    {storage : Storage} (member : MemberAt structs (.block b.name none) offset storage) :
    ∃ l ∈ p.located, l.offset = offset ∧ Storage.ofSize l.register.size = storage := by
  -- A peripheral is a cluster at its own start.
  have of : Piece.Of structs
      ⟨0, b.size, .cluster ⟨p.name, p.description, 0, none, p.registers, p.clusters⟩⟩
      (.block b.name none) := ⟨_, rfl, b, rfl, h⟩
  obtain ⟨_, shifted, place, same⟩ := member.backed names of
  obtain ⟨l, hl, rfl⟩ := List.mem_map.mp shifted
  simp only [Located.shift, Nat.zero_add] at place
  exact ⟨l, hl, place, same⟩

/-- **The structs of a peripheral are laid out as its map says** when no slot ends beyond the
greatest word. -/
theorem shapePeripheral_sound {p : Peripheral} (fits : Fits p) : SoundLayout p := by
  have names := structsOf_names p
  obtain ⟨own, all⟩ := fits.stands
  refine ⟨names, ?_, ?_, ?_⟩
  · intro d hd
    obtain ⟨b, hb, rfl⟩ := List.mem_map.mp hd
    obtain ⟨_, _, stands⟩ := all b hb
    exact declaration_tiles (stands.stop_eq names)
  · intro b hb s hs name count kind
    obtain ⟨_, _, stands⟩ := all b hb
    exact stands.counted names hs kind
  · intro d hd offset storage member
    rw [structsOf_eq, List.head?_map] at hd
    obtain ⟨b, hb, rfl⟩ := Option.map_eq_some_iff.mp hd
    rw [declaration_name] at member
    exact (own b hb).backed names member

/-- A peripheral with a gap and with an array of structs that are longer than their
register. -/
def timer : Peripheral where
  name := "TIMER"
  description := none
  groupName := none
  baseAddress := 0
  addressRange := ⟨0, 0⟩
  interrupts := []
  registers := [.plain "CTRL" 0 32]
  clusters := [⟨"CH", none, 8, some ⟨2, 8⟩, [.plain "VAL" 0 32], []⟩]

theorem timer_blocks : (shapePeripheral timer).blocks =
    [⟨"Timer", 24, [⟨0, 4, "ctrl", .register true true .u32 none none⟩,
        ⟨8, 16, "ch", .block "TimerCh" (some 2)⟩]⟩,
      ⟨"TimerCh", 8, [⟨0, 4, "val", .register true true .u32 none none⟩]⟩] := by
  decide +kernel

theorem timer_structs : structsOf timer =
    [⟨"Timer", [.field ⟨0, 4, "ctrl", .register true true .u32 none none⟩, .reserved 4 0,
        .field ⟨8, 16, "ch", .block "TimerCh" (some 2)⟩], 24⟩,
      ⟨"TimerCh", [.field ⟨0, 4, "val", .register true true .u32 none none⟩,
        .reserved 4 0], 8⟩] := by
  rw [structsOf_eq, timer_blocks]
  cbv

theorem shapePeripheral_sound_timer : Fits timer ∧ SoundLayout timer := by
  have fits : Fits timer := by
    unfold Fits
    rw [timer_structs, timer_blocks]
    decide +kernel
  exact ⟨fits, shapePeripheral_sound fits⟩

end ChipMap.Source
