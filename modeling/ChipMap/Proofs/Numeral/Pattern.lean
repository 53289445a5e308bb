import Mathlib
import ChipMap.Numeral.Pattern
import ChipMap.Proofs.Numeral.Scaled

/-!
# Which texts are patterns

The value of an enumerated case is a pattern: a mark and binary digits, some of which may be left
open, or else an integer.  A pattern **matches the words that have its digits**, and zeros above
them (`matches_foldl`), and without an open digit it is the integer of the same digits
(`hasDigits_iff_eq`).

A text is marked when a `#` or a binary mark stands before characters of a pattern (`Marked`).  It
is accepted when there are one to 64 of them, and this is where the reader departs from what is well
spelled: a separator counts as a digit does.  `accepted_iff_wellSpelled` says **for which texts this
makes a difference**, and `readPattern_accepts_iff` says the same of every text.

### What is load-bearing

The bits of a pattern are read off one push at a time, from the last digit backwards
(`getLsbD_push_value`, `getLsbD_push_mask`), so a digit is found at its place from the right.

A text is marked in one way only (`Marked.unique`).  So what is said of some mark and run of a text
is said of the only ones, and the statements can be about texts although the proofs are about runs.

A text with a binary mark may be an integer as well, and then it matters that both readings agree.
They do when the run begins with a digit and no digit is open (`literal_binary_iff`), and otherwise
there is no second reading.
-/

namespace ChipMap

namespace Pattern

/-! ### The bits of a pattern

A pattern is built from the left, one digit after another, and each digit moves those before it up
by one place. -/

/-- The bits of the value when a digit is written behind a pattern.  Bits beyond the word are
lost. -/
theorem getLsbD_push_value (p : Pattern) (c : Char) (i : Nat) : (p.push c).value.getLsbD i =
    (decide (i < 64) && if i = 0 then c == '1' else p.value.getLsbD (i - 1)) := by
  unfold push
  by_cases one : c = '1'
  · subst one
    cases i with
    | zero => simp
    | succ i => simp [BitVec.getLsbD_one]
  · by_cases zero : c = '0'
    · subst zero
      cases i <;> simp
    · cases i <;> simp [one, zero]

/-- The bits that take part when a digit is written behind a pattern.  An open digit has a zero
there. -/
theorem getLsbD_push_mask (p : Pattern) (c : Char) (i : Nat) : (p.push c).mask.getLsbD i =
    (decide (i < 64) && if i = 0 then c == '0' || c == '1' else p.mask.getLsbD (i - 1)) := by
  have lowest : (1 : Word).getLsbD i = decide (i = 0) := by
    rw [show (1 : Word) = 1#64 from rfl, BitVec.getLsbD_one]
    simp
  have shifted : ((p.mask <<< 1) ||| 1).getLsbD i =
      (decide (i < 64) && (decide (i = 0) || p.mask.getLsbD (i - 1))) := by
    rw [BitVec.getLsbD_or, lowest, BitVec.getLsbD_shiftLeft]
    cases i with
    | zero => simp
    | succ i => simp
  unfold push
  by_cases one : c = '1'
  · subst one
    cases i with
    | zero => simp
    | succ i => simp
  · by_cases zero : c = '0'
    · subst zero
      cases i with
      | zero => simp
      | succ i => simp
    · simp only [one, zero, beq_iff_eq, if_false]
      rw [BitVec.getLsbD_and, BitVec.getLsbD_not, lowest, shifted]
      cases i with
      | zero => simp [one, zero]
      | succ i =>
        simp only [Nat.add_eq_zero_iff, one_ne_zero, and_false, decide_false, Bool.not_false,
          Bool.and_true, if_false, Bool.false_or]
        cases decide (i + 1 < 64) <;> simp

/-- The bits of the value of written digits.  An open digit counts as a zero. -/
theorem getLsbD_foldl_value (digits : List Char) (i : Nat) :
    (digits.foldl push (exactly 0)).value.getLsbD i =
      (decide (i < 64) && decide (digits.reverse[i]? = some '1')) := by
  induction digits using List.reverseRecOn generalizing i with
  | nil => simp [exactly]
  | append_singleton digits c ih =>
      rw [List.foldl_append, List.foldl_cons, List.foldl_nil, getLsbD_push_value,
        List.reverse_append, List.reverse_singleton, List.singleton_append]
      cases i with
      | zero => simp [beq_eq_decide]
      | succ i =>
        rw [if_neg (Nat.succ_ne_zero i), Nat.add_sub_cancel, ih, List.getElem?_cons_succ]
        by_cases inside : i + 1 < 64
        · simp [show i < 64 by omega]
        · simp [inside]

/-- The bits that take part in a comparison with written digits: all but the open ones. -/
theorem getLsbD_foldl_mask (digits : List Char) (i : Nat) :
    (digits.foldl push (exactly 0)).mask.getLsbD i =
      (decide (i < 64) && digits.reverse[i]?.all fun c => c == '0' || c == '1') := by
  induction digits using List.reverseRecOn generalizing i with
  | nil =>
      rw [List.foldl_nil, exactly, BitVec.getLsbD_allOnes]
      simp
  | append_singleton digits c ih =>
      rw [List.foldl_append, List.foldl_cons, List.foldl_nil, getLsbD_push_mask,
        List.reverse_append, List.reverse_singleton, List.singleton_append]
      cases i with
      | zero => simp [beq_eq_decide]
      | succ i =>
        rw [if_neg (Nat.succ_ne_zero i), Nat.add_sub_cancel, ih, List.getElem?_cons_succ]
        by_cases inside : i + 1 < 64
        · simp [show i < 64 by omega]
        · simp [inside]

/-! ### The words that a pattern matches -/

/-- **A digit agrees with a bit** that is the same; an open digit agrees with either. -/
def Agrees (c : Char) (b : Bool) : Prop := (c = '0' → b = false) ∧ (c = '1' → b = true)

/-- **A word has the digits**: the last one is that of the lowest bit, and above the first one all
bits are zero. -/
structure HasDigits (digits : List Char) (n : Word) : Prop where
  /-- Each digit agrees with its bit. -/
  agrees : ∀ i, ∀ c ∈ digits.reverse[i]?, Agrees c (n.getLsbD i)
  /-- The bits above the digits are zero. -/
  above : ∀ i, digits.length ≤ i → n.getLsbD i = false

/-- A word matches a pattern when it does so bit by bit.  Bits that do not take part may have either
value. -/
theorem matches_iff {p : Pattern} {n : Word} : p.Matches n ↔
    ∀ i < 64, (n.getLsbD i && p.mask.getLsbD i) = p.value.getLsbD i := by
  constructor
  · intro h i _
    rw [← BitVec.getLsbD_and, show n &&& p.mask = p.value from h]
  · intro h
    refine BitVec.eq_of_getLsbD_eq fun i hi => ?_
    rw [BitVec.getLsbD_and, h i hi]

/-- **The pattern of written digits matches the words that have them.**  There may be up to 64
digits, as many as a word has bits. -/
theorem matches_foldl {digits : List Char} (short : digits.length ≤ 64) {n : Word} :
    (digits.foldl push (exactly 0)).Matches n ↔ HasDigits digits n := by
  -- What the digit at a place, if there is one, asks of the bit there.
  have bit (i : Nat) (hi : i < 64) : ((n.getLsbD i &&
      (digits.foldl push (exactly 0)).mask.getLsbD i) =
        (digits.foldl push (exactly 0)).value.getLsbD i) ↔
      match digits.reverse[i]? with
      | some c => Agrees c (n.getLsbD i)
      | none => n.getLsbD i = false := by
    rw [getLsbD_foldl_value, getLsbD_foldl_mask]
    cases digits.reverse[i]? with
    | none => simp [hi]
    | some c =>
        by_cases one : c = '1'
        · simp [hi, one, Agrees]
        · by_cases zero : c = '0'
          · simp [hi, zero, Agrees]
          · simp [one, zero, Agrees]
  have length : digits.reverse.length = digits.length := List.length_reverse
  rw [matches_iff]
  constructor
  · intro h
    refine ⟨fun i c hc => ?_, fun i hi => ?_⟩
    · have hi : i < 64 := by
        have := (List.getElem?_eq_some_iff.mp hc).1
        omega
      have := (bit i hi).mp (h i hi)
      rwa [show digits.reverse[i]? = some c from hc] at this
    · by_cases inside : i < 64
      · have := (bit i inside).mp (h i inside)
        rwa [List.getElem?_eq_none (by omega)] at this
      · exact BitVec.getLsbD_of_ge n i (by omega)
  · intro h i hi
    refine (bit i hi).mpr ?_
    cases found : digits.reverse[i]? with
    | some c => exact h.agrees i c found
    | none =>
        have := List.getElem?_eq_none_iff.mp found
        exact h.above i (by omega)

/-- The value of written digits is a match: open digits are zeros in it, and a zero agrees with
them. -/
theorem matches_foldl_value (digits : List Char) :
    (digits.foldl push (exactly 0)).Matches (digits.foldl push (exactly 0)).value := by
  refine matches_iff.mpr fun i hi => ?_
  rw [getLsbD_foldl_value, getLsbD_foldl_mask]
  cases digits.reverse[i]? with
  | none => simp
  | some c =>
      by_cases one : c = '1'
      · simp [one]
      · simp [one]

theorem matches_exactly {v n : Word} : (exactly v).Matches n ↔ n = v := by
  unfold Matches exactly
  rw [BitVec.and_allOnes]

end Pattern

namespace Numeral

open Pattern (HasDigits Agrees)

/-! ### Texts with a mark

The parts of a marked text are described as those of a literal are, without the reader.  A proper
run is told by its digits alone, while the reader counts separators too. -/

/-- The mark of a pattern. -/
inductive PatternMark : List Char → Prop
  | hash : PatternMark ['#']
  | binary {c : Char} : c = 'b' ∨ c = 'B' → PatternMark ['0', c]

/-- The characters of a pattern: digits, open digits and the separator. -/
def patternChars : List Char := ['0', '1', 'x', 'X', '_']

/-- The characters of a pattern without an open digit. -/
def settledChars : List Char := ['0', '1', '_']

/-- **A text is marked as a pattern**: between blanks stand a mark and characters of a pattern.  The
run may be empty or too long, so not every marked text is accepted. -/
structure Marked (text : String) (mark run : List Char) : Prop where
  encloses : Text.Encloses text (mark ++ run)
  mark : PatternMark mark
  chars : ∀ c ∈ run, c ∈ patternChars

/-- The digits of a run, with the separators left out. -/
def written (run : List Char) : List Char := run.filter (· != '_')

/-- A run begins with a digit, open or not. -/
def Led (run : List Char) : Prop := ∃ c ∈ run.head?, c ≠ '_'

/-- No digit of a run is open.  Such a run stands for one number. -/
def Settled (run : List Char) : Prop := 'x' ∉ run ∧ 'X' ∉ run

/-- **A run is proper** when it begins with a digit and has no more of them than a word has bits.
Separators are not counted. -/
structure Proper (run : List Char) : Prop where
  led : Led run
  short : (written run).length ≤ 64

/-- Behind its outer blanks a text begins with a `#`.  Such a text is never read as an integer of a
case. -/
def Hashed (text : String) : Prop := (Text.trimChars text.toList).head? = some '#'

theorem isPatternChar_iff {c : Char} : isPatternChar c = true ↔ c ∈ patternChars := by
  simp [isPatternChar, patternChars, or_assoc]

theorem patternMark?_eq_some_iff {cs run : List Char} :
    patternMark? cs = some run ↔ ∃ mark, PatternMark mark ∧ cs = mark ++ run := by
  constructor
  · intro h
    unfold patternMark? at h
    split at h
    · exact ⟨['#'], .hash, by rw [← Option.some.inj h]; rfl⟩
    · exact ⟨['0', 'b'], .binary (.inl rfl), by rw [← Option.some.inj h]; rfl⟩
    · exact ⟨['0', 'B'], .binary (.inr rfl), by rw [← Option.some.inj h]; rfl⟩
    · cases h
  · rintro ⟨mark, marked, rfl⟩
    cases marked with
    | hash => rfl
    | binary letter => obtain rfl | rfl := letter <;> rfl

theorem patternMark_unique {mark mark' run run' : List Char} (h : PatternMark mark)
    (h' : PatternMark mark') (same : mark ++ run = mark' ++ run') : mark = mark' ∧ run = run' := by
  cases h with
  | hash =>
      cases h' with
      | hash => simpa using same
      | binary _ => simp at same
  | binary _ =>
      cases h' with
      | hash => simp at same
      | binary _ => simpa using same

section Marked

variable {text : String} {mark run mark' run' : List Char}

theorem Marked.trimmed (h : Marked text mark run) : Text.trimChars text.toList = mark ++ run := by
  have marks : ∀ c ∈ mark, Text.isBlank c = false := by
    cases h.mark with
    | hash => exact RadixMark.hash.solid
    | binary letter => exact (RadixMark.binary letter).solid
  have solid : ∀ c ∈ patternChars, Text.isBlank c = false := Text.forall_mem_of_all (by decide)
  refine (Text.trimChars_eq_iff (Text.bounded_of_solid ?_)).mpr h.encloses
  exact List.forall_mem_append.mpr ⟨marks, fun c hc => solid c (h.chars c hc)⟩

/-- A text is marked in one way only: blanks, marks and characters of a pattern cannot be taken for
each other. -/
theorem Marked.unique (h : Marked text mark run) (h' : Marked text mark' run') :
    mark = mark' ∧ run = run' :=
  patternMark_unique h.mark h'.mark (h.trimmed.symm.trans h'.trimmed)

/-- What is said of some run behind a mark is said of the only one. -/
theorem Marked.exists_iff (h : Marked text mark run) {P : List Char → Prop} :
    (∃ mark run, Marked text mark run ∧ P run) ↔ P run := by
  constructor
  · rintro ⟨mark', run', h', holds⟩
    rwa [(h.unique h').2]
  · exact fun holds => ⟨mark, run, h, holds⟩

theorem marked_ofList (marked : PatternMark mark) (chars : ∀ c ∈ run, c ∈ patternChars) :
    Marked (String.ofList (mark ++ run)) mark run :=
  ⟨⟨[], [], by simp, by simp, by simp⟩, marked, chars⟩

/-- **A text is read as a binary pattern** when its run has one to 64 characters.  Separators are
among those. -/
theorem binaryPattern?_eq_some_iff {p : Pattern} :
    binaryPattern? (Text.trimChars text.toList) = some p ↔
      ∃ mark run, Marked text mark run ∧ 0 < run.length ∧ run.length ≤ 64 ∧
        p = Pattern.ofDigits run := by
  unfold binaryPattern?
  simp only [Option.bind_eq_bind, Option.bind_eq_some_iff, patternMark?_eq_some_iff]
  constructor
  · rintro ⟨run, ⟨mark, marked, trimmed⟩, h⟩
    split at h
    · next kept =>
      simp only [Bool.and_eq_true, decide_eq_true_eq, List.all_eq_true] at kept
      obtain ⟨⟨chars, some_⟩, few⟩ := kept
      exact ⟨mark, run, ⟨trimmed ▸ Text.encloses_trimChars text, marked,
        fun c hc => isPatternChar_iff.mp (chars c hc)⟩, some_, few, (Option.some.inj h).symm⟩
    · cases h
  · rintro ⟨mark, run, marked, some_, few, rfl⟩
    refine ⟨run, ⟨mark, marked.mark, marked.trimmed⟩, if_pos ?_⟩
    simp only [Bool.and_eq_true, decide_eq_true_eq, List.all_eq_true]
    exact ⟨⟨fun c hc => isPatternChar_iff.mpr (marked.chars c hc), some_⟩, few⟩

end Marked

section Read

variable {text : String} {p : Pattern}

theorem readPattern_eq_ok_iff_pattern? :
    readPattern text = .ok p ↔ pattern? (Text.trimChars text.toList) = some p :=
  ValueKind.read_eq_ok_iff _ _ _

/-- The integer that a text is read as when it is no binary pattern. -/
theorem exactly_unsigned?_iff : (whole? unsigned? (Text.trimChars text.toList)).map
      (fun n => Pattern.exactly (BitVec.ofNat 64 n)) = some p ↔
    ∃ v, readWord text = .ok v ∧ p = Pattern.exactly v := by
  simp only [readWord, ValueKind.read_eq_ok_iff]
  cases whole? unsigned? (Text.trimChars text.toList) with
  | none => simp
  | some n => simp [eq_comm]

/-- **A text is read as a binary pattern, or else as an integer** without a `#`.  The second reading
is tried only when the first one fails. -/
theorem readPattern_eq_ok_iff : readPattern text = .ok p ↔
    (∃ mark run, Marked text mark run ∧ 0 < run.length ∧ run.length ≤ 64 ∧
      p = Pattern.ofDigits run) ∨
    (¬∃ mark run, Marked text mark run ∧ 0 < run.length ∧ run.length ≤ 64) ∧ ¬Hashed text ∧
      ∃ v, readWord text = .ok v ∧ p = Pattern.exactly v := by
  rw [readPattern_eq_ok_iff_pattern?]
  unfold pattern?
  cases found : binaryPattern? (Text.trimChars text.toList) with
  | some q =>
      obtain ⟨mark, run, marked, some_, few, rfl⟩ := binaryPattern?_eq_some_iff.mp found
      dsimp only
      constructor
      · intro h
        exact .inl ⟨mark, run, marked, some_, few, (Option.some.inj h).symm⟩
      · rintro (⟨mark', run', marked', -, -, rfl⟩ | ⟨none_, -⟩)
        · rw [(marked.unique marked').2]
        · exact absurd ⟨mark, run, marked, some_, few⟩ none_
  | none =>
      have none_ : ¬∃ mark run, Marked text mark run ∧ 0 < run.length ∧ run.length ≤ 64 := by
        rintro ⟨mark, run, marked, some_, few⟩
        have := binaryPattern?_eq_some_iff.mpr ⟨mark, run, marked, some_, few, rfl⟩
        rw [found] at this
        cases this
      dsimp only
      split
      · next hashed =>
        have : Hashed text := by simpa [Hashed] using hashed
        constructor
        · intro h
          cases h
        · rintro (⟨mark, run, marked, some_, few, -⟩ | ⟨-, plain, -⟩)
          · exact absurd ⟨mark, run, marked, some_, few⟩ none_
          · exact absurd this plain
      · next plain =>
        have : ¬Hashed text := by simpa [Hashed] using plain
        rw [exactly_unsigned?_iff]
        constructor
        · exact fun h => .inr ⟨none_, this, h⟩
        · rintro (⟨mark, run, marked, some_, few, -⟩ | ⟨-, -, h⟩)
          · exact absurd ⟨mark, run, marked, some_, few⟩ none_
          · exact h

end Read

/-! ### Patterns without an open digit

Behind a binary mark, a run can be both the run of a pattern and the run of a literal.  The lemmas
of this section compare the two: they have the same digits, and so the same number. -/

section Settled

variable {run : List Char} (chars : ∀ c ∈ run, c ∈ patternChars)

include chars in
theorem binary_of_settled (settled : Settled run) : ∀ c ∈ run, c ∈ settledChars := by
  have kinds : ∀ c ∈ patternChars, c ∈ settledChars ∨ c = 'x' ∨ c = 'X' :=
    Text.forall_mem_of_all (by decide)
  intro c hc
  rcases kinds c (chars c hc) with kind | rfl | rfl
  · exact kind
  · exact absurd hc settled.1
  · exact absurd hc settled.2

theorem scaleMark_nil {suffix : List Char} {power : Nat} (h : ScaleMark suffix power)
    (chars : ∀ c ∈ suffix, c ∈ patternChars) : suffix = [] ∧ power = 0 := by
  have none_ : ∀ c ∈ patternChars, scale? c = none := Text.forall_mem_of_all (by decide)
  cases suffix with
  | nil =>
      cases h
      exact ⟨rfl, rfl⟩
  | cons c rest =>
      rcases scale_or_end h ends_nil (e := c) rfl with scaled | ⟨empty, -⟩
      · rw [none_ c (chars c List.mem_cons_self)] at scaled
        cases scaled
      · cases empty

/-- What a literal behind a binary mark is made of.  A text that begins with a zero and such a
letter has no other mark, and the zero is not its first digit. -/
theorem exists_of_literal_binary {b : Char} (letter : b = 'b' ∨ b = 'B') {number : Scaled}
    (literal : Literal ('0' :: b :: run) number) :
    ∃ first digits suffix d ds power, run = first :: digits ++ suffix ∧ IsDigit 2 first d ∧
      Run 2 digits ds ∧ ScaleMark suffix power ∧
      number = ⟨false, Nat.ofDigits 2 (d :: ds).reverse * 2 ^ power⟩ := by
  generalize whole : '0' :: b :: run = body at literal
  cases literal with
  | @mk sign mark digits suffix first negative radix power d ds hsign hradix digit hrun hscale =>
    cases hsign with
    | plus => simp at whole
    | minus => simp at whole
    | absent =>
        cases hradix with
        | hash => simp at whole
        | @hexadecimal c other =>
            obtain rfl : b = c := by simp_all
            obtain rfl | rfl := letter <;> simp at other
        | @octal c other =>
            obtain rfl : b = c := by simp_all
            obtain rfl | rfl := letter <;> simp at other
        | decimal =>
            -- The zero would be a digit, and behind it stood a letter that makes a mark of it.
            obtain ⟨-, behind⟩ : '0' = first ∧ b :: run = digits ++ suffix := by simpa using whole
            have plain := run_plain hrun hscale ends_nil b (by rw [← behind]; rfl)
            obtain rfl | rfl := letter <;> exact absurd (by decide) plain
        | binary _ =>
            have behind : run = first :: digits ++ suffix := by simp_all
            exact ⟨first, digits, suffix, d, ds, power, behind, digit, hrun, hscale, rfl⟩

include chars in
/-- **Behind a binary mark a pattern is a literal** when it begins with a digit and none is open. -/
theorem literal_binary_iff {b : Char} (letter : b = 'b' ∨ b = 'B') {number : Scaled} :
    Literal ('0' :: b :: run) number ↔
      Settled run ∧ Led run ∧ number = ⟨false, digitsValue 2 run⟩ := by
  constructor
  · intro literal
    obtain ⟨first, digits, suffix, d, ds, power, rfl, digit, hrun, hscale, rfl⟩ :=
      exists_of_literal_binary letter literal
    obtain ⟨rfl, rfl⟩ := scaleMark_nil hscale fun c hc =>
      chars c (List.mem_append_right _ hc)
    rw [List.append_nil] at chars ⊢
    obtain ⟨binary, values⟩ := (run_iff (by decide)).mp (.digit digit hrun)
    have first_ : first ≠ '_' := digit.forall (P := (· ≠ '_')) (n := 2) le_rfl (by decide)
    refine ⟨⟨fun open_ => ?_, fun open_ => ?_⟩, ⟨first, rfl, first_⟩, ?_⟩
    · exact absurd (binary 'x' open_) (by decide)
    · exact absurd (binary 'X' open_) (by decide)
    · rw [digitsValue_eq, values, Nat.pow_zero, Nat.mul_one]
  · rintro ⟨settled, ⟨first, hfirst, kind⟩, rfl⟩
    have kinds : ∀ c ∈ settledChars, isRunChar 2 c = true := Text.forall_mem_of_all (by decide)
    have binary : ∀ c ∈ run, isRunChar 2 c = true := fun c hc =>
      kinds c (binary_of_settled chars settled c hc)
    cases run with
    | nil => cases hfirst
    | cons c digits =>
        obtain rfl := Option.some.inj hfirst
        obtain ⟨head, others⟩ := List.forall_mem_cons.mp binary
        have digit : (digit? 2 c).isSome := by simpa [isRunChar, kind] using head
        obtain ⟨d, value⟩ := Option.isSome_iff_exists.mp digit
        have literal := Literal.mk .absent (.binary letter)
          ((digit?_eq_some_iff (by decide)).mp value)
          ((run_iff (by decide)).mpr ⟨others, rfl⟩) .absent
        rw [digitsValue_eq, List.filterMap_cons_some value]
        simpa using literal

end Settled

section Binary

variable {run : List Char} (binary : ∀ c ∈ run, c ∈ settledChars)

include binary in
/-- **The bits of the number of a run are its digits**, from the last one on.  The induction takes
digits off the end of the run, where the lowest bit is. -/
theorem testBit_digitsValue (i : Nat) :
    (digitsValue 2 run).testBit i = decide ((written run).reverse[i]? = some '1') := by
  induction run using List.reverseRecOn generalizing i with
  | nil => simp [digitsValue, written]
  | append_singleton run c ih =>
      have known := ih fun e he => binary e (List.mem_append_left _ he)
      -- A digit that is written behind a run moves the others up by one place.
      have pushed (d : Nat) (digit : digit? 2 c = some d) (small : d < 2) (kept : c ≠ '_')
          (one : d = 1 ↔ c = '1') : (digitsValue 2 (run ++ [c])).testBit i =
            decide ((written (run ++ [c])).reverse[i]? = some '1') := by
        have value : digitsValue 2 (run ++ [c]) = digitsValue 2 run * 2 + d := by
          simp [digitsValue, digit]
        have digits : written (run ++ [c]) = written run ++ [c] := by
          simp [written, kept]
        rw [value, digits, List.reverse_append, List.reverse_singleton, List.singleton_append]
        cases i with
        | zero =>
            have odd : d % 2 = 1 ↔ c = '1' := by rw [Nat.mod_eq_of_lt small, one]
            simp [odd]
        | succ i =>
            have half : (digitsValue 2 run * 2 + d) / 2 = digitsValue 2 run := by omega
            rw [Nat.testBit_succ, half, known, List.getElem?_cons_succ]
      have kind := binary c (List.mem_append_right _ List.mem_cons_self)
      simp only [settledChars, List.mem_cons, List.not_mem_nil, or_false] at kind
      rcases kind with rfl | rfl | rfl
      · exact pushed 0 rfl (by decide) (by decide) (by decide)
      · exact pushed 1 rfl (by decide) (by decide) (by decide)
      · have value : digitsValue 2 (run ++ ['_']) = digitsValue 2 run := by
          simp [digitsValue, List.filterMap_cons_none (digit?_underscore 2)]
        have digits : written (run ++ ['_']) = written run := by simp [written]
        rw [value, digits, known]

include binary in
/-- **A word has the digits of a run when it is the number of the run.**  So a pattern without an
open digit matches one word only. -/
theorem hasDigits_iff_eq {v n : Word} (same : digitsValue 2 run = v.toNat) :
    HasDigits (written run) n ↔ n = v := by
  have bit (i : Nat) : v.getLsbD i = decide ((written run).reverse[i]? = some '1') := by
    rw [← testBit_digitsValue binary, same, BitVec.testBit_toNat]
  have kinds : ∀ c ∈ (written run).reverse, c = '0' ∨ c = '1' := by
    intro c hc
    obtain ⟨hc, kept⟩ := List.mem_filter.mp (List.mem_reverse.mp hc)
    have := binary c hc
    simp only [settledChars, List.mem_cons, List.not_mem_nil, or_false] at this
    grind
  have length : (written run).reverse.length = (written run).length := List.length_reverse
  constructor
  · intro has
    -- Bits beyond the digits are zero on both sides.
    refine BitVec.eq_of_getLsbD_eq fun i _ => ?_
    rw [bit]
    cases found : (written run).reverse[i]? with
    | none =>
        have := List.getElem?_eq_none_iff.mp found
        rw [has.above i (by omega)]
        rfl
    | some c =>
        rcases kinds c (List.mem_of_getElem? found) with rfl | rfl
        · rw [(has.agrees i _ found).1 rfl]
          rfl
        · rw [(has.agrees i _ found).2 rfl]
          rfl
  · rintro rfl
    refine ⟨fun i c hc => ?_, fun i hi => ?_⟩
    · have found : (written run).reverse[i]? = some c := hc
      rw [bit, found]
      exact ⟨fun zero => by rw [zero]; rfl, fun one => by rw [one]; rfl⟩
    · rw [bit, List.getElem?_eq_none (by omega)]
      rfl

include binary in
theorem digitsValue_lt : digitsValue 2 run < 2 ^ (written run).length := by
  refine Nat.lt_pow_two_of_testBit _ fun i hi => ?_
  rw [testBit_digitsValue binary, List.getElem?_eq_none (by rwa [List.length_reverse])]
  rfl

end Binary

theorem digitsValue_written (run : List Char) :
    digitsValue 2 (written run) = digitsValue 2 run := by
  have same : (written run).filterMap (digit? 2) = run.filterMap (digit? 2) := by
    rw [written, List.filterMap_filter]
    congr 1
    funext c
    by_cases separator : c = '_'
    · rw [separator]
      rfl
    · simp [separator]
  rw [digitsValue, digitsValue, same]

/-! ### What is accepted, and what it matches -/

section Accepted

variable {text : String} {p : Pattern} {mark run : List Char}

/-- **A text with a binary mark is a word** when its run begins with a digit, none is open and the
number is a word. -/
theorem readWord_marked_iff {b : Char} (h : Marked text ['0', b] run) {v : Word} :
    readWord text = .ok v ↔ Settled run ∧ Led run ∧ digitsValue 2 run = v.toNat := by
  have letter : b = 'b' ∨ b = 'B' := by
    cases h.mark with
    | binary letter => exact letter
  rw [readWord_eq_ok_iff]
  simp only [spells_iff, h.trimmed, List.cons_append, List.nil_append,
    literal_binary_iff h.chars letter]
  constructor
  · rintro ⟨_, ⟨settled, led, rfl⟩, same, -⟩
    exact ⟨settled, led, same⟩
  · rintro ⟨settled, led, same⟩
    exact ⟨_, ⟨settled, led, rfl⟩, same, fun minus => nomatch minus⟩

theorem readWord_binary_iff (chars : ∀ c ∈ run, c ∈ patternChars) {v : Word} :
    readWord (String.ofList ('0' :: 'b' :: run)) = .ok v ↔
      Settled run ∧ Led run ∧ digitsValue 2 run = v.toNat :=
  readWord_marked_iff (marked_ofList (.binary (.inl rfl)) chars)

theorem Marked.hashed_or (h : Marked text mark run) :
    Hashed text ∧ mark = ['#'] ∨ ¬Hashed text ∧ ∃ b, mark = ['0', b] := by
  unfold Hashed
  rw [h.trimmed]
  cases h.mark with
  | hash => exact .inl ⟨rfl, rfl⟩
  | binary _ => exact .inr ⟨by simp, _, rfl⟩

/-- **A text with a mark that is a word** and does not begin with a `#` is the number of its run. -/
theorem Marked.of_readWord (h : Marked text mark run) (plain : ¬Hashed text) {v : Word}
    (word : readWord text = .ok v) : Settled run ∧ Led run ∧ digitsValue 2 run = v.toNat := by
  rcases h.hashed_or with ⟨hashed, -⟩ | ⟨-, b, rfl⟩
  · exact absurd hashed plain
  · exact (readWord_marked_iff h).mp word

/-- **What is accepted with a mark matches the words that have its digits.** -/
theorem matches_of_marked (read : readPattern text = .ok p) (h : Marked text mark run) {n : Word} :
    p.Matches n ↔ HasDigits (written run) n := by
  rcases readPattern_eq_ok_iff.mp read with ⟨mark', run', h', -, few, rfl⟩ |
    ⟨-, plain, v, word, rfl⟩
  · obtain ⟨rfl, rfl⟩ := h.unique h'
    exact Pattern.matches_foldl ((List.length_filter_le _ run).trans few)
  · obtain ⟨settled, -, same⟩ := h.of_readWord plain word
    rw [Pattern.matches_exactly, hasDigits_iff_eq (binary_of_settled h.chars settled) same]

/-- **What is accepted as an integer matches the integer alone**, whether or not it could be a
pattern too. -/
theorem matches_of_word (read : readPattern text = .ok p) (plain : ¬Hashed text) {v : Word}
    (word : readWord text = .ok v) {n : Word} : p.Matches n ↔ n = v := by
  rcases readPattern_eq_ok_iff.mp read with ⟨mark, run, h, -⟩ | ⟨-, -, v', word', rfl⟩
  · -- A text with a binary mark may be both: the digits of the pattern are those of the integer.
    obtain ⟨settled, -, same⟩ := h.of_readWord plain word
    rw [matches_of_marked read h, hasDigits_iff_eq (binary_of_settled h.chars settled) same]
  · obtain rfl := Except.ok.inj (word.symm.trans word')
    exact Pattern.matches_exactly

theorem matches_value (read : readPattern text = .ok p) : p.Matches p.value := by
  rcases readPattern_eq_ok_iff.mp read with ⟨mark', run', -, -, -, rfl⟩ | ⟨-, -, v, -, rfl⟩
  · exact Pattern.matches_foldl_value (written run')
  · exact Pattern.matches_exactly.mpr rfl

/-- **The value of a pattern without an open digit is the number of its digits.** -/
theorem digitsValue_of_settled (read : readPattern text = .ok p) (h : Marked text mark run)
    (settled : Settled run) : digitsValue 2 run = p.value.toNat := by
  have binary := binary_of_settled h.chars settled
  have small : digitsValue 2 run < 2 ^ 64 := by
    rcases readPattern_eq_ok_iff.mp read with ⟨mark', run', h', -, few, -⟩ | ⟨-, plain, v, word, -⟩
    · obtain ⟨rfl, rfl⟩ := h.unique h'
      exact Nat.lt_of_lt_of_le (digitsValue_lt binary)
        (Nat.pow_le_pow_right (by decide) ((List.length_filter_le _ run).trans few))
    · rw [(h.of_readWord plain word).2.2]
      exact v.isLt
  have whole : digitsValue 2 run = (BitVec.ofNat 64 (digitsValue 2 run)).toNat := by
    rw [BitVec.toNat_ofNat, Nat.mod_eq_of_lt small]
  have has : HasDigits (written run) p.value := (matches_of_marked read h).mp (matches_value read)
  rw [(hasDigits_iff_eq binary whole).mp has]
  exact whole

end Accepted

/-! ### Texts that are well spelled -/

/-- **A text is well spelled as the value of a case**: a mark and a proper run, or an integer that
does not begin with a `#`. -/
def WellSpelled (text : String) : Prop :=
  (∃ mark run, Marked text mark run ∧ Proper run) ∨ ¬Hashed text ∧ ∃ v, readWord text = .ok v

/-- **A run is regular** where it does not matter that separators are counted as digits are. -/
structure Regular (mark run : List Char) : Prop where
  /-- A run that begins with a separator is too long. -/
  led : run.head? = some '_' → 64 < run.length
  /-- A proper run is not too long, or else it can be read as an integer. -/
  short : Proper run → run.length ≤ 64 ∨ mark ≠ ['#'] ∧ Settled run

section WellSpelled

variable {text : String} {mark run : List Char}

theorem not_led_of_head {run : List Char} (h : run.head? = some '_') : ¬Led run := by
  rintro ⟨c, hc, digit⟩
  rw [h] at hc
  exact digit (Option.some.inj hc).symm

theorem led_iff : Led run ↔ 0 < run.length ∧ run.head? ≠ some '_' := by
  cases run with
  | nil => simp [Led]
  | cons c run => simp [Led]

theorem led_written {run : List Char} : Led (written run) ↔ written run ≠ [] := by
  constructor
  · rintro ⟨c, hc, -⟩ none_
    rw [none_] at hc
    cases hc
  · intro some_
    obtain ⟨c, rest, same⟩ := List.exists_cons_of_ne_nil some_
    have digit := (List.mem_filter.mp (same ▸ List.mem_cons_self : c ∈ written run)).2
    exact ⟨c, by rw [same]; rfl, by simpa using digit⟩

/-- When a text with a mark is an integer without a `#`: the mark is binary, and its run is that of
a number which is a word. -/
theorem integer_of_marked (h : Marked text mark run) :
    (¬Hashed text ∧ ∃ v, readWord text = .ok v) ↔
      mark ≠ ['#'] ∧ Settled run ∧ Led run ∧ digitsValue 2 run < 2 ^ 64 := by
  rcases h.hashed_or with ⟨hashed, rfl⟩ | ⟨plain, b, rfl⟩
  · simp [hashed]
  · simp only [readWord_marked_iff h]
    constructor
    · rintro ⟨-, v, settled, led, same⟩
      exact ⟨by simp, settled, led, same ▸ v.isLt⟩
    · rintro ⟨-, settled, led, small⟩
      refine ⟨plain, BitVec.ofNat 64 (digitsValue 2 run), settled, led, ?_⟩
      rw [BitVec.toNat_ofNat, Nat.mod_eq_of_lt small]

/-- Which texts are accepted, with the pattern itself left out. -/
theorem accepted_iff : (∃ p, readPattern text = .ok p) ↔
    (∃ mark run, Marked text mark run ∧ 0 < run.length ∧ run.length ≤ 64) ∨
      ¬Hashed text ∧ ∃ v, readWord text = .ok v := by
  simp only [readPattern_eq_ok_iff]
  constructor
  · rintro ⟨p, ⟨mark, run, marked, some_, few, -⟩ | ⟨-, plain, v, word, -⟩⟩
    · exact .inl ⟨mark, run, marked, some_, few⟩
    · exact .inr ⟨plain, v, word⟩
  · intro h
    by_cases short : ∃ mark run, Marked text mark run ∧ 0 < run.length ∧ run.length ≤ 64
    · obtain ⟨mark, run, marked, some_, few⟩ := short
      exact ⟨_, .inl ⟨mark, run, marked, some_, few, rfl⟩⟩
    · obtain ⟨plain, v, word⟩ := h.resolve_left short
      exact ⟨_, .inr ⟨short, plain, v, word, rfl⟩⟩

/-- **A text with a mark is accepted exactly when it is well spelled** where its run is regular, and
only there. -/
theorem accepted_iff_wellSpelled (h : Marked text mark run) :
    ((∃ p, readPattern text = .ok p) ↔ WellSpelled text) ↔ Regular mark run := by
  have few := h.exists_iff (P := fun run => 0 < run.length ∧ run.length ≤ 64)
  have proper := h.exists_iff (P := Proper)
  have shorter : (written run).length ≤ run.length := List.length_filter_le _ run
  rw [accepted_iff, WellSpelled, few, proper, integer_of_marked h]
  constructor
  · intro same
    refine ⟨fun head => ?_, fun proper => ?_⟩
    · -- A run that begins with a separator is spelled by no rule, so it is not accepted only if it
      -- is too long.
      have unled := not_led_of_head head
      have some_ : 0 < run.length := by
        cases run with
        | nil => cases head
        | cons => exact Nat.succ_pos _
      -- A run in front of which a separator stands is not well spelled, so it has to be refused
      -- too.
      by_contra few
      rcases same.mp (.inl ⟨some_, Nat.not_lt.mp few⟩) with proper | ⟨-, -, led, -⟩
      · exact unled proper.led
      · exact unled led
    · rcases same.mpr (.inl proper) with ⟨-, few⟩ | ⟨binary, settled, -⟩
      · exact .inl few
      · exact .inr ⟨binary, settled⟩
  · intro regular
    constructor
    · rintro (⟨some_, few⟩ | integer)
      · refine .inl ⟨led_iff.mpr ⟨some_, fun head => ?_⟩, shorter.trans few⟩
        exact Nat.not_lt.mpr few (regular.led head)
      · exact .inr integer
    · rintro (proper | integer)
      · rcases regular.short proper with few | ⟨binary, settled⟩
        · exact .inl ⟨(led_iff.mp proper.led).1, few⟩
        · refine .inr ⟨binary, settled, proper.led, ?_⟩
          exact Nat.lt_of_lt_of_le (digitsValue_lt (binary_of_settled h.chars settled))
            (Nat.pow_le_pow_right (by decide) proper.short)
      · exact .inr integer

end WellSpelled

/-- **Which texts are the value of a case.**  A pattern is accepted with one to 64 characters behind
its mark, separators included, so a text is accepted exactly when it is well spelled unless a mark
stands before a run that is not regular.  Any other text is reported as it is. -/
theorem readPattern_accepts_iff (text : String) :
    ((∃ p, readPattern text = .ok p) ↔
      (∃ mark run, Marked text mark run ∧ 0 < run.length ∧ run.length ≤ 64) ∨
        ¬Hashed text ∧ ∃ v, readWord text = .ok v) ∧
    (((∃ p, readPattern text = .ok p) ↔ WellSpelled text) ↔
      ∀ mark run, Marked text mark run → Regular mark run) ∧
    ((∃ p, readPattern text = .ok p) ∨ readPattern text = .error ⟨.enumeratedValue, text⟩) := by
  refine ⟨accepted_iff, ?_, ?_⟩
  · by_cases marked : ∃ mark run, Marked text mark run
    · obtain ⟨mark, run, h⟩ := marked
      rw [accepted_iff_wellSpelled h]
      constructor
      · intro regular mark' run' h'
        obtain ⟨rfl, rfl⟩ := h.unique h'
        exact regular
      · exact fun all => all mark run h
    · have few : ¬∃ mark run, Marked text mark run ∧ 0 < run.length ∧ run.length ≤ 64 :=
        fun ⟨mark, run, h, _⟩ => marked ⟨mark, run, h⟩
      have proper : ¬∃ mark run, Marked text mark run ∧ Proper run :=
        fun ⟨mark, run, h, _⟩ => marked ⟨mark, run, h⟩
      rw [accepted_iff, WellSpelled, or_iff_right few, or_iff_right proper]
      exact iff_of_true Iff.rfl fun mark run h => absurd ⟨mark, run, h⟩ marked
  · exact ValueKind.read_cases _ _ _

/-- A separator may stand before all digits, and where one stands behind 64 digits they are too
many. -/
theorem accepted_not_wellSpelled :
    (readPattern "#_1" = .ok ⟨1, BitVec.allOnes 64⟩ ∧ ¬WellSpelled "#_1") ∧
      WellSpelled (String.ofList ('#' :: List.replicate 64 '1' ++ ['_'])) ∧
      readPattern (String.ofList ('#' :: List.replicate 64 '1' ++ ['_'])) =
        .error ⟨.enumeratedValue, String.ofList ('#' :: List.replicate 64 '1' ++ ['_'])⟩ := by
  refine ⟨⟨by cbv, ?_⟩, .inl ⟨['#'], List.replicate 64 '1' ++ ['_'], ?_, ?_⟩, ?_⟩
  · have leading : Marked "#_1" ['#'] ['_', '1'] :=
      marked_ofList .hash (Text.forall_mem_of_all (by decide))
    rintro (⟨mark, run, marked, proper⟩ | ⟨plain, -⟩)
    · obtain ⟨-, rfl⟩ := leading.unique marked
      exact not_led_of_head rfl proper.led
    · exact plain (by unfold Hashed; rw [leading.trimmed]; rfl)
  · exact marked_ofList .hash (Text.forall_mem_of_all (by decide))
  · exact ⟨⟨'1', rfl, by decide⟩, by decide⟩
  · cbv

end Numeral

end ChipMap
