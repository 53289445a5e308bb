import ChipMap.Numeral.Pattern
import ChipMap.Proofs.Name.Case
import ChipMap.Proofs.Numeral.Scaled

/-!
# Which texts are bit ranges

A bit range is written as two numbers in brackets, the higher bit first, with a colon between them.
The numbers are spelled like any others, with blanks beside them: **a text is read as a bit range
exactly when it is two words in brackets** (`readBitRange_eq_ok_iff`).

### What is load-bearing

Neither a blank nor a colon nor a bracket can be taken for a part of a number (`Ends`), so the
reader of a number stops where the number does, whatever stands behind it.

The two bounds are described by the texts that stand for them, and each of these is read as a word
is read anywhere else.  So a bound may have a sign, a mark or a scale if a word may, and blanks on
both of its sides.  Whether the higher bound is the greater one is not asked here.
-/

namespace ChipMap.Numeral

/-- **A text is two texts in brackets**, with a colon between them and blanks around the
brackets. -/
def Brackets (text upper lower : String) : Prop :=
  Text.Encloses text ('[' :: (upper.toList ++ ':' :: (lower.toList ++ [']'])))

/-! ### Outer blanks -/

theorem readWord_trim {text : String} {v : Word} :
    readWord (Text.trim text) = .ok v ↔ readWord text = .ok v := by
  have spells {number : Scaled} : Spells (Text.trim text) number ↔ Spells text number :=
    exists_congr fun _ => and_congr_left fun literal =>
      Text.encloses_trim_iff (Text.bounded_of_solid literal.solid)
  simp only [readWord_eq_ok_iff, spells]

theorem bounded_brackets (inner : List Char) : Text.Bounded ('[' :: (inner ++ [']'])) := by
  refine ⟨fun c hc => ?_, fun c hc => ?_⟩
  · obtain rfl := Option.some.inj hc
    decide
  · rw [← List.cons_append, List.getLast?_concat] at hc
    obtain rfl := Option.some.inj hc
    decide

theorem brackets_eq (upper lower : List Char) : '[' :: (upper ++ ':' :: (lower ++ [']'])) =
    '[' :: ((upper ++ ':' :: lower) ++ [']']) := by simp

/-- Outer blanks make no difference to what stands in brackets. -/
theorem brackets_trim {text upper lower : String} :
    Brackets (Text.trim text) upper lower ↔ Brackets text upper lower := by
  rw [Brackets, Brackets, brackets_eq]
  exact Text.encloses_trim_iff (bounded_brackets _)

/-! ### Numbers among blanks -/

theorem isIdentifierChar_of_isBlank {c : Char} (blank : Text.isBlank c = true) :
    Name.isIdentifierChar c = false := by
  have letters := Name.forall_isAlphanum (P := fun c => Text.isBlank c = false) (by decide +kernel)
  by_contra inside
  rcases Bool.or_eq_true_iff.mp (Bool.eq_true_of_not_eq_false inside) with letter | underscore
  · rw [letters c letter] at blank
    cases blank
  · obtain rfl := beq_iff_eq.mp underscore
    exact absurd blank (by decide)

/-- What may stand behind a number may stand there with blanks before it: a blank is no part of a
number. -/
theorem Ends.append_blanks {after rest : List Char} (blank : ∀ c ∈ after, Text.isBlank c = true)
    (ends : Ends rest) : Ends (after ++ rest) := by
  cases after with
  | nil => exact ends
  | cons c after =>
      intro e he
      obtain rfl := Option.some.inj he
      exact isIdentifierChar_of_isBlank (blank c List.mem_cons_self)

theorem Literal.ne_nil {body : List Char} {number : Scaled} (h : Literal body number) :
    body ≠ [] := by
  cases h
  simp

/-- **A word at the front of a text is read up to its end**, with the blanks before it.  What is
left begins with the blanks behind it. -/
theorem unsigned?_append {cs rest : List Char} {v : Word}
    (word : readWord (String.ofList cs) = .ok v) (ends : Ends rest) :
    ∃ after, (∀ c ∈ after, Text.isBlank c = true) ∧
      unsigned? (Text.trimStart (cs ++ rest)) = some (v.toNat, after ++ rest) := by
  obtain ⟨number, ⟨body, ⟨before, after, written, blank, blank'⟩, literal⟩, value, zero⟩ :=
    readWord_eq_ok_iff.mp word
  rw [String.toList_ofList] at written
  refine ⟨after, blank', unsigned?_eq_some_iff.mpr ⟨number, ?_, value, fun minus => ?_⟩⟩
  · have first : ∀ c ∈ (body ++ (after ++ rest)).head?, Text.isBlank c = false := by
      intro c hc
      cases body with
      | nil => exact absurd rfl literal.ne_nil
      | cons d body => exact literal.solid c (List.mem_of_mem_head? hc)
    rw [written, List.append_assoc, List.append_assoc, Text.trimStart,
      Text.dropWhile_append_stop blank first]
    exact scaled?_of_literal literal (value ▸ v.isLt) (ends.append_blanks blank')
  · rw [zero minus]
    rfl

/-- **What is read at the front of a text is a word**, with blanks on both sides.  The blanks behind
it are still to be read, so the word is the same with any of them. -/
theorem exists_of_unsigned? {cs rest : List Char} {n : Nat}
    (h : unsigned? (Text.trimStart cs) = some (n, rest)) :
    ∃ front, cs = front ++ rest ∧ ∀ after, (∀ c ∈ after, Text.isBlank c = true) →
      readWord (String.ofList (front ++ after)) = .ok (BitVec.ofNat 64 n) := by
  obtain ⟨number, found, rfl, zero⟩ := unsigned?_eq_some_iff.mp h
  obtain ⟨body, written, literal, fits⟩ := literal_of_scaled? found
  refine ⟨cs.takeWhile Text.isBlank ++ body, ?_, fun after blank => readWord_eq_ok_iff.mpr ?_⟩
  · rw [List.append_assoc, ← written, Text.trimStart, List.takeWhile_append_dropWhile]
  · refine ⟨number, ⟨body, ⟨_, after, String.toList_ofList, fun c hc => ?_, blank⟩, literal⟩, ?_, ?_⟩
    · exact List.mem_takeWhile_imp hc
    · rw [BitVec.toNat_ofNat, Nat.mod_eq_of_lt (show number.magnitude < 2 ^ 64 from fits)]
    · intro minus
      rw [zero minus]
      rfl

/-! ### Ranges -/

theorem expect?_eq_some_iff {c : Char} {cs rest : List Char} :
    expect? c cs = some rest ↔ cs = c :: rest := by
  cases cs with
  | nil => simp [expect?]
  | cons d cs =>
      rw [expect?, List.cons.injEq]
      split
      · next same => simp [same]
      · next other => simp [other]

/-- The blanks that are dropped at the front of a text. -/
theorem exists_of_trimStart {cs rest : List Char} (h : Text.trimStart cs = rest) :
    ∃ before, cs = before ++ rest ∧ ∀ c ∈ before, Text.isBlank c = true :=
  ⟨cs.takeWhile Text.isBlank, by rw [← h, Text.trimStart, List.takeWhile_append_dropWhile],
    fun _ hc => List.mem_takeWhile_imp hc⟩

/-- Two words in brackets are read, the upper one first.  Each number is followed by something that
ends it. -/
theorem bitRange?_brackets {upper lower : String} {msb lsb : Word}
    (high : readWord upper = .ok msb) (low : readWord lower = .ok lsb) :
    bitRange? ('[' :: (upper.toList ++ ':' :: (lower.toList ++ [']']))) =
      some ((msb.toNat, lsb.toNat), []) := by
  have colon : Ends (':' :: (lower.toList ++ [']'])) := fun c hc => by
    obtain rfl := Option.some.inj hc
    decide
  have bracket : Ends [']'] := fun c hc => by
    obtain rfl := Option.some.inj hc
    decide
  rw [← String.ofList_toList (s := upper)] at high
  rw [← String.ofList_toList (s := lower)] at low
  obtain ⟨after, blank, first⟩ := unsigned?_append high colon
  obtain ⟨after', blank', second⟩ := unsigned?_append low bracket
  -- Behind each number, blanks are passed over up to the colon or the bracket.
  have skip {after rest : List Char} {c : Char} (blank : ∀ c ∈ after, Text.isBlank c = true)
      (solid : Text.isBlank c = false) : Text.trimStart (after ++ c :: rest) = c :: rest :=
    Text.dropWhile_append_stop blank fun d hd => by
      obtain rfl := Option.some.inj hd
      exact solid
  simp only [bitRange?, expect?, if_true, Option.bind_eq_bind, Option.bind_some, first,
    skip blank (show Text.isBlank ':' = false by decide), second,
    skip blank' (show Text.isBlank ']' = false by decide)]

/-- What is read as a range is two words in brackets. -/
theorem exists_of_bitRange? {cs : List Char} {msb lsb : Nat}
    (h : bitRange? cs = some ((msb, lsb), [])) :
    ∃ upper lower, cs = '[' :: (upper ++ ':' :: (lower ++ [']'])) ∧
      readWord (String.ofList upper) = .ok (BitVec.ofNat 64 msb) ∧
      readWord (String.ofList lower) = .ok (BitVec.ofNat 64 lsb) := by
  simp only [bitRange?, Option.bind_eq_bind, Option.bind_eq_some_iff, Prod.exists] at h
  obtain ⟨inner, opening, m, behindUpper, first, behindColon, colon, l, behindLower, second, rest,
    closing, same⟩ := h
  obtain ⟨rfl, rfl, rfl⟩ : m = msb ∧ l = lsb ∧ rest = [] := by simpa [and_assoc] using same
  obtain ⟨front, rfl, high⟩ := exists_of_unsigned? first
  obtain ⟨front', rfl, low⟩ := exists_of_unsigned? second
  obtain ⟨before, rfl, blank⟩ := exists_of_trimStart (expect?_eq_some_iff.mp colon)
  obtain ⟨before', rfl, blank'⟩ := exists_of_trimStart (expect?_eq_some_iff.mp closing)
  refine ⟨front ++ before, front' ++ before', ?_, high before blank, low before' blank'⟩
  rw [expect?_eq_some_iff.mp opening]
  simp only [List.append_assoc]

/-- **A text is read as a bit range exactly when it is two words in brackets**, the upper bound
first. -/
theorem readBitRange_eq_ok_iff {text : String} {msb lsb : Word} :
    readBitRange text = .ok (msb, lsb) ↔ ∃ upper lower, Brackets text upper lower ∧
      readWord upper = .ok msb ∧ readWord lower = .ok lsb := by
  constructor
  · intro h
    rw [readBitRange, ValueKind.read_eq_ok_iff] at h
    obtain ⟨⟨m, l⟩, found, bounds⟩ := Option.map_eq_some_iff.mp h
    obtain ⟨rfl, rfl⟩ := Prod.mk.inj bounds
    obtain ⟨upper, lower, written, high, low⟩ := exists_of_bitRange? (whole?_eq_some_iff.mp found)
    refine ⟨String.ofList upper, String.ofList lower, ?_, high, low⟩
    rw [Brackets, String.toList_ofList, String.toList_ofList, ← written]
    exact Text.encloses_trimChars text
  · rintro ⟨upper, lower, brackets, high, low⟩
    rw [Brackets, brackets_eq] at brackets
    rw [readBitRange, ValueKind.read_eq_ok_iff,
      Text.trimChars_of_encloses (bounded_brackets _) brackets, ← brackets_eq,
      whole?_eq_some_iff.mpr (bitRange?_brackets high low)]
    simp only [Option.map_some, BitVec.ofNat_toNat, BitVec.setWidth_eq]

end ChipMap.Numeral
