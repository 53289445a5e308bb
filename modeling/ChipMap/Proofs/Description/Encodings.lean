import ChipMap.Proofs.Description.Decoded
import ChipMap.Proofs.Numeral.BitRange

/-!
# Three ways of writing the bits of a field

The bits of a field are written as a range in brackets, as the lowest and the highest bit, or as an
offset with a width.  The three ways count in this order, and a field may hold children of all of
them.  **Each way of writing the same bits is read as the same bits, and what is read is what the
first way says whose children are there** (`readBitRange_encodings`).

### What is load-bearing

What an encoding says is an equation of natural numbers (`Encoding.Gives`), so the offset of a field
and its width are added without a bound; the reader adds words, and refuses a sum that is none
(`highestBit?_eq_some_iff`).

An encoding may be complete, absent, or neither: one of two ends may stand alone.  Absence is what
lets a later encoding count, and completeness is what an encoding needs to say anything.  A field
with one end alone is refused, so no encoding behind it is ever reached.

Values are described by what child holds which value (`Scope.Holds`), and not by the readers of
attributes.  The lemmas of the first section turn every outcome of these readers into such a
statement.
-/

namespace ChipMap.Description

open Numeral (Brackets readWord)

/-! ### Children that hold a value -/

namespace Scope

variable {s : Scope} {name : String}

/-- **A child holds a word** when the text of the first child of its name is read as the word.
Further children of the name hold nothing. -/
def Holds (s : Scope) (name : String) (v : Word) : Prop :=
  ∃ child, s.element.child? name = some child ∧ readWord child.text = .ok v

theorem Holds.unique {v w : Word} (h : s.Holds name v) (h' : s.Holds name w) : v = w := by
  obtain ⟨child, found, read⟩ := h
  obtain ⟨child', found', read'⟩ := h'
  obtain rfl := Option.some.inj (found.symm.trans found')
  exact Except.ok.inj (read.symm.trans read')

section Values

variable {α : Type} {read : String → Except Malformed α}

/-- No value is found exactly when there is no child.  A child without a value would be a fault. -/
theorem value?_eq_none_iff : s.value? name read = .ok none ↔ s.element.child? name = none := by
  unfold value? text?
  cases s.element.child? name with
  | none => simp
  | some child =>
      dsimp only [Option.map_some]
      cases read (Text.trim child.text) with
      | ok v => simp
      | error cause => simp [invalid]

/-- A value is found exactly when the text of the child is read as it. -/
theorem value?_eq_some_iff {v : α} : s.value? name read = .ok (some v) ↔
    ∃ child, s.element.child? name = some child ∧ read (Text.trim child.text) = .ok v := by
  unfold value? text?
  cases s.element.child? name with
  | none => simp
  | some child =>
      dsimp only [Option.map_some]
      cases found : read (Text.trim child.text) with
      | ok v => simp [found]
      | error cause => simp [invalid, found]

end Values

theorem word?_eq_some_iff {v : Word} : s.word? name = .ok (some v) ↔ s.Holds name v := by
  rw [word?, value?_eq_some_iff]
  exact exists_congr fun _ => and_congr_right fun _ => Numeral.readWord_trim

theorem requiredWord_eq_ok_iff {v : Word} : s.requiredWord name = .ok v ↔ s.Holds name v := by
  rw [← word?_eq_some_iff, requiredWord, requiredValue, bind_eq_ok, word?]
  constructor
  · rintro ⟨found, h, value⟩
    cases found with
    | none => cases value
    | some w =>
        obtain rfl := Except.ok.inj value
        exact h
  · exact fun h => ⟨_, h, rfl⟩

end Scope

/-! ### Encodings -/

/-- **The ways of writing the bits of a field**, in the order in which they count. -/
inductive Encoding where
  /-- Both ends in brackets. -/
  | brackets
  /-- The lowest and the highest bit. -/
  | ends
  /-- The lowest bit and the number of bits, which is one when it is left out. -/
  | extent
deriving DecidableEq, Repr

namespace Encoding

/-- The children that an encoding cannot do without.  The width of an extent is not among them. -/
def names : Encoding → List String
  | brackets => ["bitRange"]
  | ends => ["lsb", "msb"]
  | extent => ["bitOffset"]

/-- The encodings that count before one.  This is the order of precedence as a function. -/
def earlier : Encoding → List Encoding
  | brackets => []
  | ends => [brackets]
  | extent => [brackets, ends]

/-- All children that an encoding cannot do without are there. -/
def Complete (s : Scope) (e : Encoding) : Prop :=
  ∀ name ∈ e.names, (s.element.child? name).isSome

/-- None of the children that an encoding cannot do without is there. -/
def Absent (s : Scope) (e : Encoding) : Prop := ∀ name ∈ e.names, s.element.child? name = none

instance (s : Scope) (e : Encoding) : Decidable (e.Complete s) :=
  inferInstanceAs (Decidable (∀ name ∈ e.names, (s.element.child? name).isSome))

instance (s : Scope) (e : Encoding) : Decidable (e.Absent s) :=
  inferInstanceAs (Decidable (∀ name ∈ e.names, s.element.child? name = none))

/-- The number of bits that an extent has. -/
def Width (s : Scope) (width : Word) : Prop :=
  s.element.child? "bitWidth" = none ∧ width = 1 ∨ s.Holds "bitWidth" width

/-- **What an encoding says**: the bits from the lowest to the highest one, counted as natural
numbers.  An encoding may say a range that is written backwards, which the reader refuses. -/
inductive Gives (s : Scope) : Encoding → BitRange → Prop
  | brackets {child : Markup.Element} {upper lower : String} {r : BitRange} :
    s.element.child? "bitRange" = some child → Brackets child.text upper lower →
      readWord upper = .ok r.msb → readWord lower = .ok r.lsb → Gives s .brackets r
  | ends {r : BitRange} : s.Holds "lsb" r.lsb → s.Holds "msb" r.msb → Gives s .ends r
  | extent {width : Word} {r : BitRange} : s.Holds "bitOffset" r.lsb → Width s width →
    r.lsb.toNat + width.toNat = r.msb.toNat + 1 → Gives s .extent r

theorem Absent.not_complete {s : Scope} {e : Encoding} (h : e.Absent s) : ¬e.Complete s := by
  intro complete
  have first : ∃ name, name ∈ e.names := by cases e <;> exact ⟨_, List.mem_cons_self⟩
  obtain ⟨name, listed⟩ := first
  have there := complete name listed
  rw [h name listed] at there
  cases there

variable {s : Scope} {e : Encoding} {r r' : BitRange}

theorem Width.unique {v w : Word} (h : Width s v) (h' : Width s w) : v = w := by
  rcases h with ⟨none_, rfl⟩ | held
  · rcases h' with ⟨-, rfl⟩ | ⟨child, found, -⟩
    · rfl
    · cases none_.symm.trans found
  · rcases h' with ⟨none_, rfl⟩ | held'
    · obtain ⟨child, found, -⟩ := held
      cases none_.symm.trans found
    · exact held.unique held'

theorem Gives.complete (h : e.Gives s r) : e.Complete s := by
  have there {name : String} {v : Word} (held : s.Holds name v) :
      (s.element.child? name).isSome := by
    obtain ⟨child, found, -⟩ := held
    rw [found]
    rfl
  cases h with
  | brackets found _ _ _ =>
      rintro name listed
      obtain rfl := List.mem_singleton.mp listed
      rw [found]
      rfl
  | ends low high =>
      rintro name listed
      rcases List.mem_cons.mp listed with rfl | listed
      · exact there low
      · obtain rfl := List.mem_singleton.mp listed
        exact there high
  | extent offset _ _ =>
      rintro name listed
      obtain rfl := List.mem_singleton.mp listed
      exact there offset

theorem width_iff {width : Word} : Width s width ↔
    ∃ found, s.word? "bitWidth" = .ok found ∧ found.getD 1 = width := by
  constructor
  · rintro (⟨absent, rfl⟩ | held)
    · exact ⟨none, Scope.value?_eq_none_iff.mpr absent, rfl⟩
    · exact ⟨some width, Scope.word?_eq_some_iff.mpr held, rfl⟩
  · rintro ⟨found, read, rfl⟩
    cases found with
    | none => exact .inl ⟨Scope.value?_eq_none_iff.mp read, rfl⟩
    | some width => exact .inr (Scope.word?_eq_some_iff.mp read)

theorem gives_brackets_iff : brackets.Gives s r ↔
    s.value? "bitRange" Numeral.readBitRange = .ok (some (r.msb, r.lsb)) := by
  rw [Scope.value?_eq_some_iff]
  constructor
  · rintro (⟨found, inside, high, low⟩ | _ | _)
    exact ⟨_, found, Numeral.readBitRange_eq_ok_iff.mpr
      ⟨_, _, Numeral.brackets_trim.mpr inside, high, low⟩⟩
  · rintro ⟨child, found, read⟩
    obtain ⟨upper, lower, inside, high, low⟩ := Numeral.readBitRange_eq_ok_iff.mp read
    exact .brackets found (Numeral.brackets_trim.mp inside) high low

/-- **An encoding says one thing only**, because each child holds one word. -/
theorem Gives.unique (h : e.Gives s r) (h' : e.Gives s r') : r = r' := by
  cases e with
  | brackets =>
      have same := (gives_brackets_iff.mp h).symm.trans (gives_brackets_iff.mp h')
      obtain ⟨high, low⟩ := Prod.mk.inj (Option.some.inj (Except.ok.inj same))
      cases r
      cases r'
      exact congrArg₂ BitRange.mk low high
  | ends =>
      obtain _ | ⟨low, high⟩ | _ := h
      obtain _ | ⟨low', high'⟩ | _ := h'
      cases r
      cases r'
      exact congrArg₂ BitRange.mk (low.unique low') (high.unique high')
  | extent =>
      obtain _ | _ | ⟨offset, width, sum⟩ := h
      obtain _ | _ | ⟨offset', width', sum'⟩ := h'
      have low := offset.unique offset'
      rw [low, width.unique width'] at sum
      have high : r.msb = r'.msb := BitVec.toNat_inj.mp (by omega)
      cases r
      cases r'
      exact congrArg₂ BitRange.mk low high

end Encoding

/-! ### The reader -/

/-- **The highest bit of an extent** is found when there is one below the greatest word. -/
theorem highestBit?_eq_some_iff {offset width msb : Word} : highestBit? offset width = some msb ↔
    0 < width.toNat ∧ offset.toNat + width.toNat = msb.toNat + 1 ∧ msb.toNat < Word.greatest := by
  unfold highestBit?
  have small := msb.isLt
  split
  · next none_ =>
    refine ⟨(fun h => nomatch h), fun ⟨some_, sum, below⟩ => ?_⟩
    unfold Word.greatest at below
    unfold Word.count at none_
    omega
  · next some_ =>
    rw [not_or, Nat.not_le] at some_
    unfold Word.count at some_
    rw [Option.some.injEq, ← BitVec.toNat_inj, BitVec.toNat_ofNat, Nat.mod_eq_of_lt (by omega)]
    unfold Word.greatest
    omega

/-- There is no highest bit when there is no bit, or one beyond the greatest word.  This is the
negation of the lemma before, put into the words of a fault. -/
theorem highestBit?_eq_none_iff {offset width : Word} : highestBit? offset width = none ↔
    width.toNat = 0 ∨ Word.count ≤ offset.toNat + width.toNat := by
  unfold highestBit?
  split
  · next none_ => exact ⟨fun _ => none_, fun _ => rfl⟩
  · next some_ => exact ⟨(fun h => nomatch h), fun h => absurd h some_⟩

section Readings

variable {s : Scope} {r : BitRange}

open Encoding

/-- What an encoding says is read, if no earlier one is begun and its bits are in order. -/
theorem readBitRange_of_gives {e : Encoding} (h : e.Gives s r)
    (absent : ∀ e' ∈ e.earlier, e'.Absent s) (order : r.lsb.toNat ≤ r.msb.toNat)
    (below : r.msb.toNat < Word.greatest) : readBitRange s = .ok (some r) := by
  -- An encoding that comes earlier is absent, so the reader goes on to this one.
  have no (e' : Encoding) (name : String) (listed : name ∈ e'.names) (first : e' ∈ e.earlier) :
      s.element.child? name = none := absent e' first name listed
  have checked (name : String) : (do return some (← checkBitRange s name r.msb r.lsb)) =
      (.ok (some r) : Except DocumentFault (Option BitRange)) :=
    bind_eq_ok.mpr ⟨r, checkBitRange_eq_ok_iff.mpr ⟨order, rfl⟩, rfl⟩
  cases e with
  | brackets => exact bind_eq_ok.mpr ⟨_, gives_brackets_iff.mp h, checked _⟩
  | ends =>
      obtain _ | ⟨low, high⟩ | _ := h
      have bracketed := no .brackets "bitRange" (by decide) (by decide)
      refine bind_eq_ok.mpr ⟨_, Scope.value?_eq_none_iff.mpr bracketed, ?_⟩
      refine bind_eq_ok.mpr ⟨_, Scope.word?_eq_some_iff.mpr low, ?_⟩
      exact bind_eq_ok.mpr ⟨_, Scope.requiredWord_eq_ok_iff.mpr high, checked _⟩
  | extent =>
      obtain _ | _ | ⟨offset, width, sum⟩ := h
      have bracketed := no .brackets "bitRange" (by decide) (by decide)
      have lowest := no .ends "lsb" (by decide) (by decide)
      have highest := no .ends "msb" (by decide) (by decide)
      obtain ⟨found, read, rfl⟩ := width_iff.mp width
      refine bind_eq_ok.mpr ⟨_, Scope.value?_eq_none_iff.mpr bracketed, ?_⟩
      refine bind_eq_ok.mpr ⟨_, Scope.value?_eq_none_iff.mpr lowest, ?_⟩
      dsimp only
      rw [highest, if_neg (by simp)]
      refine bind_eq_ok.mpr ⟨_, Scope.word?_eq_some_iff.mpr offset, ?_⟩
      refine bind_eq_ok.mpr ⟨found, read, ?_⟩
      rw [highestBit?_eq_some_iff.mpr ⟨by omega, sum, below⟩]
      exact checked _

/-- **What is read is what some encoding says** of which no earlier one is begun. -/
theorem exists_gives_of_readBitRange (h : readBitRange s = .ok (some r)) :
    r.lsb.toNat ≤ r.msb.toNat ∧ ∃ e : Encoding, e.Gives s r ∧ ∀ e' ∈ e.earlier, e'.Absent s := by
  have bits := readBitRange_ok h
  refine ⟨bits.ordered, ?_⟩
  cases bits with
  | brackets bracketed _ =>
      exact ⟨.brackets, gives_brackets_iff.mpr bracketed, fun _ none_ => nomatch none_⟩
  | ends bracketed low high _ =>
      have noBrackets : Encoding.brackets.Absent s :=
        List.forall_mem_singleton.mpr (Scope.value?_eq_none_iff.mp bracketed)
      exact ⟨.ends, .ends (Scope.word?_eq_some_iff.mp low) (Scope.requiredWord_eq_ok_iff.mp high),
        List.forall_mem_singleton.mpr noBrackets⟩
  | @extent lsb msb _ bracketed low high offset found top _ =>
      have noBrackets : Encoding.brackets.Absent s :=
        List.forall_mem_singleton.mpr (Scope.value?_eq_none_iff.mp bracketed)
      have noEnds : Encoding.ends.Absent s :=
        List.forall_mem_cons.mpr
          ⟨Scope.value?_eq_none_iff.mp low, List.forall_mem_singleton.mpr high⟩
      have gives : Encoding.extent.Gives s ⟨lsb, msb⟩ :=
        .extent (Scope.word?_eq_some_iff.mp offset) (width_iff.mpr ⟨_, found, rfl⟩)
          (highestBit?_eq_some_iff.mp top).2.1
      exact ⟨.extent, gives,
        List.forall_mem_cons.mpr ⟨noBrackets, List.forall_mem_singleton.mpr noEnds⟩⟩

end Readings

/-- **The three encodings agree, and the first complete one counts.**  Bits in order and below the
greatest word are read from each encoding that says them and before which nothing else is written,
in any spelling of the numbers.  Bits that are read are in order, and are what the first encoding
says of which all children are there: no sum is wrapped. -/
theorem readBitRange_encodings (s : Scope) :
    (∀ r : BitRange, r.lsb.toNat ≤ r.msb.toNat → r.msb.toNat < Word.greatest →
      ∀ e : Encoding, e.Gives s r → (∀ e' ∈ e.earlier, e'.Absent s) →
        readBitRange s = .ok (some r)) ∧
    ∀ r, readBitRange s = .ok (some r) → r.lsb.toNat ≤ r.msb.toNat ∧
      ∃ e : Encoding, e.Complete s ∧ (∀ e' ∈ e.earlier, ¬e'.Complete s) ∧ e.Gives s r ∧
        ∀ r', e.Gives s r' → r' = r := by
  constructor
  · exact fun r order below e gives absent => readBitRange_of_gives gives absent order below
  · intro r h
    obtain ⟨order, e, gives, absent⟩ := exists_gives_of_readBitRange h
    exact ⟨order, e, gives.complete, fun e' first => (absent e' first).not_complete, gives,
      fun r' gives' => gives'.unique gives⟩

/-- A field whose children hold texts. -/
def fieldHolding (values : List (String × String)) : Scope where
  element := ⟨⟨"field", [], .origin⟩, values.map fun v => .element ⟨v.1, [], .origin⟩ [.text v.2]⟩
  path := []

/-- Four bits from the eighth on, in the three ways. -/
theorem readBitRange_encodings_nibble :
    readBitRange (fieldHolding [("bitRange", " [ 0xB : #8 ] ")]) = .ok (some ⟨8, 11⟩) ∧
      readBitRange (fieldHolding [("msb", " +11"), ("lsb", "0b1000")]) = .ok (some ⟨8, 11⟩) ∧
      readBitRange (fieldHolding [("bitWidth", "4"), ("bitOffset", "0x8")]) =
        .ok (some ⟨8, 11⟩) := by
  have order : (8#64).toNat ≤ (11#64).toNat := by decide
  have below : (11#64).toNat < Word.greatest := by decide
  refine ⟨?_, ?_, ?_⟩
  · have inside : Brackets " [ 0xB : #8 ] " " 0xB " " #8 " :=
      ⟨[' '], [' '], by decide, Text.forall_mem_of_all (by decide),
        Text.forall_mem_of_all (by decide)⟩
    exact (readBitRange_encodings _).1 ⟨8, 11⟩ order below .brackets
      (.brackets rfl inside (by decide) (by decide)) (by decide)
  · exact (readBitRange_encodings _).1 ⟨8, 11⟩ order below .ends
      (.ends ⟨_, rfl, by decide⟩ ⟨_, rfl, by decide⟩) (by decide)
  · have width : Encoding.Width (fieldHolding [("bitWidth", "4"), ("bitOffset", "0x8")]) 4 :=
      .inr ⟨_, rfl, by decide⟩
    exact (readBitRange_encodings _).1 ⟨8, 11⟩ order below .extent
      (.extent ⟨_, rfl, by decide⟩ width rfl) (by decide)

end ChipMap.Description
