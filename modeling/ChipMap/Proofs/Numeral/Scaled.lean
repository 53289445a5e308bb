import ChipMap.Name.Identifier
import ChipMap.Numeral.Scaled
import ChipMap.Proofs.Text.Blank
import Mathlib.Data.Nat.Digits.Defs

/-!
# Which texts are integers

An integer of a document is written as `Literal` says: a sign or none, the mark of a radix or none,
a digit of the radix, digits and underscores behind it, and a letter of scale or none.  A literal
says which number it is, so **a text is read as a word or as a signed integer exactly when it is a
literal between blanks whose number is one** (`readNumber_iff`).

The description of literals does not mention the reader.  It says of each part which characters it
may be and what it stands for, and a literal is one part after another.

### What is load-bearing

The reader takes each part as far as it goes and never looks back, while a literal may be cut into
parts in any way.  Both agree because no part can be taken for the next one: a digit is no sign, no
letter of scale and no underscore is a digit, and behind a zero without a mark stands no letter that
would make a mark of it (`radix_append`).

For each part there are two lemmas.  One says that what the reader takes is such a part
(`exists_radixMark`), whatever stands behind it.  The other says that the reader takes the whole
part (`radix_append`), and there it matters what stands behind: the hypotheses named `stop` and
`plain` say that it is no more of the same.  The first kind gives that accepted texts are literals
(`literal_of_scaled?`), and the second one that literals are accepted (`scaled?_of_literal`).

A number is accepted only if its magnitude is a word.  The reader checks this twice, for the digits
and for the scaled value, and the second check implies the first one, because scaling never makes a
number smaller.
-/

namespace ChipMap.Numeral

/-! ### Literals

A mark is an inductive predicate over characters together with what it stands for.  So a case split
on a mark gives its characters and its meaning at once. -/

/-- **A digit of a radix** with its value; letters count from ten, in either case.  The values of
digits are below the radix, so `8` is no digit of an octal number. -/
def IsDigit (radix : Nat) (c : Char) (d : Nat) : Prop :=
  d < radix ∧ (c = Nat.digitChar d ∨ c = (Nat.digitChar d).toUpper)

/-- **Digits of a radix with underscores among them**, and the values of the digits in the order in
which they are written. -/
inductive Run (radix : Nat) : List Char → List Nat → Prop
  | nil : Run radix [] []
  | digit {c : Char} {d : Nat} {cs : List Char} {ds : List Nat} :
    IsDigit radix c d → Run radix cs ds → Run radix (c :: cs) (d :: ds)
  | separator {cs : List Char} {ds : List Nat} : Run radix cs ds → Run radix ('_' :: cs) ds

/-- The sign of a number, true for a minus.  A missing sign is that of a number which is not
negative. -/
inductive SignMark : List Char → Bool → Prop
  | absent : SignMark [] false
  | plus : SignMark ['+'] false
  | minus : SignMark ['-'] true

/-- The mark of a radix, and the radix.  Letters may be small or capital. -/
inductive RadixMark : List Char → Nat → Prop
  | decimal : RadixMark [] 10
  | hash : RadixMark ['#'] 16
  | hexadecimal {c : Char} : c = 'x' ∨ c = 'X' → RadixMark ['0', c] 16
  | binary {c : Char} : c = 'b' ∨ c = 'B' → RadixMark ['0', c] 2
  | octal {c : Char} : c = 'o' ∨ c = 'O' → RadixMark ['0', c] 8

/-- The letter of a scale and its power of two.  The scales are those of memory sizes. -/
inductive ScaleMark : List Char → Nat → Prop
  | absent : ScaleMark [] 0
  | kilo {c : Char} : c = 'k' ∨ c = 'K' → ScaleMark [c] 10
  | mega {c : Char} : c = 'm' ∨ c = 'M' → ScaleMark [c] 20
  | giga {c : Char} : c = 'g' ∨ c = 'G' → ScaleMark [c] 30
  | tera {c : Char} : c = 't' ∨ c = 'T' → ScaleMark [c] 40

/-- **A literal and the number that it is**: the value of its digits, scaled, behind its sign.  The
first digit is apart from the others because an underscore may not stand in its place. -/
inductive Literal : List Char → Scaled → Prop
  | mk {sign mark run suffix : List Char} {first : Char} {negative : Bool} {radix power d : Nat}
    {ds : List Nat} : SignMark sign negative → RadixMark mark radix → IsDigit radix first d →
      Run radix run ds → ScaleMark suffix power →
      Literal (sign ++ (mark ++ (first :: run ++ suffix)))
        ⟨negative, Nat.ofDigits radix (d :: ds).reverse * 2 ^ power⟩

/-- **A text is a literal between blanks.**  The number is of any size; whether it is a word is
asked elsewhere. -/
def Spells (text : String) (number : Scaled) : Prop :=
  ∃ body, Text.Encloses text body ∧ Literal body number

/-! ### Digits -/

theorem RadixMark.le {mark : List Char} {radix : Nat} (h : RadixMark mark radix) : radix ≤ 16 := by
  cases h <;> decide

section Digits

variable {radix : Nat} (small : radix ≤ 16)

/-- What holds of the digits of a greater radix holds of a digit.  As there are finitely many of
those, it can be decided. -/
theorem IsDigit.forall {P : Char → Prop} {c : Char} {d n : Nat} (digit : IsDigit radix c d)
    (le : radix ≤ n) (h : ∀ d < n, P (Nat.digitChar d) ∧ P (Nat.digitChar d).toUpper) : P c := by
  obtain ⟨below, rfl | rfl⟩ := digit
  · exact (h d (by omega)).1
  · exact (h d (by omega)).2

/-- A character between two others stands a number of places behind the first.  This turns a
comparison of characters into one of small numbers. -/
theorem exists_of_between {c low high : Char} (inside : (low ≤ c && c ≤ high) = true) :
    ∃ n ≤ high.toNat - low.toNat, c = Char.ofNat (low.toNat + n) ∧ c.toNat - low.toNat = n := by
  obtain ⟨above, below⟩ := Bool.and_eq_true_iff.mp inside
  have first : low.toNat ≤ c.toNat := UInt32.le_iff_toNat_le.mp (of_decide_eq_true above)
  have last : c.toNat ≤ high.toNat := UInt32.le_iff_toNat_le.mp (of_decide_eq_true below)
  refine ⟨c.toNat - low.toNat, by omega, ?_, rfl⟩
  rw [Nat.add_sub_cancel' first, Char.ofNat_toNat]

include small in
theorem digit?_eq_some_iff {c : Char} {d : Nat} : digit? radix c = some d ↔ IsDigit radix c d := by
  constructor
  · intro h
    obtain ⟨value, below⟩ := Option.filter_eq_some_iff.mp h
    refine ⟨of_decide_eq_true below, ?_⟩
    -- The three ranges of characters, each checked place by place.
    have digits : ∀ n ≤ 9, Char.ofNat (48 + n) = Nat.digitChar n := by decide
    have letters : ∀ n ≤ 5, Char.ofNat (97 + n) = Nat.digitChar (n + 10) := by decide
    have capitals : ∀ n ≤ 5, Char.ofNat (65 + n) = (Nat.digitChar (n + 10)).toUpper := by decide
    split at value
    · next inside =>
      obtain ⟨n, le, written, place⟩ := exists_of_between inside
      rw [← Option.some.inj value, place, written]
      exact .inl (digits n le)
    · split at value
      · next inside =>
        obtain ⟨n, le, written, place⟩ := exists_of_between inside
        rw [← Option.some.inj value, place, written]
        exact .inl (letters n le)
      · split at value
        · next inside =>
          obtain ⟨n, le, written, place⟩ := exists_of_between inside
          rw [← Option.some.inj value, place, written]
          exact .inr (capitals n le)
        · cases value
  · rintro ⟨below, same⟩
    have values : ∀ d < 16, digit? 16 (Nat.digitChar d) = some d ∧
        digit? 16 (Nat.digitChar d).toUpper = some d := by decide
    refine Option.filter_eq_some_iff.mpr ⟨?_, decide_eq_true below⟩
    obtain rfl | rfl := same
    · exact (Option.filter_eq_some_iff.mp (values d (by omega)).1).1
    · exact (Option.filter_eq_some_iff.mp (values d (by omega)).2).1

theorem digit?_underscore (radix : Nat) : digit? radix '_' = none := rfl

include small in
/-- **A run is made of the characters of a run**, and its values are those of its digits.  The
reader works with the right side, which filters, and a literal with the left side, which is built
up. -/
theorem run_iff {cs : List Char} {ds : List Nat} :
    Run radix cs ds ↔ (∀ c ∈ cs, isRunChar radix c = true) ∧ cs.filterMap (digit? radix) = ds := by
  constructor
  · intro run
    induction run with
    | nil => simp
    | digit digit _ ih =>
        have value := (digit?_eq_some_iff small).mpr digit
        rw [List.forall_mem_cons, List.filterMap_cons_some value, ih.2, isRunChar, value]
        exact ⟨⟨rfl, ih.1⟩, rfl⟩
    | separator _ ih =>
        rw [List.forall_mem_cons, List.filterMap_cons_none (digit?_underscore radix)]
        exact ⟨⟨by rw [isRunChar, digit?_underscore]; rfl, ih.1⟩, ih.2⟩
  · induction cs generalizing ds with
    | nil =>
        rintro ⟨-, rfl⟩
        exact .nil
    | cons c cs ih =>
        rw [List.forall_mem_cons]
        rintro ⟨⟨kind, others⟩, values⟩
        cases value : digit? radix c with
        | none =>
            rw [isRunChar, value, Option.isSome_none, Bool.false_or, beq_iff_eq] at kind
            rw [List.filterMap_cons_none value] at values
            exact kind ▸ .separator (ih ⟨others, values⟩)
        | some d =>
            rw [List.filterMap_cons_some value] at values
            exact values ▸ .digit ((digit?_eq_some_iff small).mp value) (ih ⟨others, rfl⟩)

/-- **The number of a run** has its digits, the last one being the least. -/
theorem digitsValue_eq (radix : Nat) (cs : List Char) :
    digitsValue radix cs = Nat.ofDigits radix (cs.filterMap (digit? radix)).reverse := by
  rw [digitsValue, Nat.ofDigits_eq_foldr, List.foldr_reverse]
  congr 1
  funext n d
  rw [Nat.cast_id, Nat.mul_comm, Nat.add_comm]

end Digits

/-! ### The readers of the parts

What stands behind a literal decides where the reader stops.  At the end of a text nothing does, and
inside a bit range a blank, a colon or a bracket.  `Ends` covers these and says no more than the
proofs need: that no character of an identifier comes next. -/

/-- **What may stand behind a literal** without being taken for a part of it: nothing, or something
that begins with no letter, digit or underscore. -/
def Ends (rest : List Char) : Prop := ∀ c ∈ rest.head?, Name.isIdentifierChar c = false

theorem ends_nil : Ends [] := fun _ none_ => nomatch none_

section Parts

variable {radix : Nat} {mark rest : List Char}

theorem exists_signMark (cs : List Char) :
    ∃ mark, cs = mark ++ (sign cs).2 ∧ SignMark mark (sign cs).1 := by
  unfold sign
  split
  · exact ⟨['+'], rfl, .plus⟩
  · exact ⟨['-'], rfl, .minus⟩
  · exact ⟨[], rfl, .absent⟩

theorem sign_append {negative : Bool} (h : SignMark mark negative)
    (plain : ∀ c ∈ rest.head?, c ≠ '+' ∧ c ≠ '-') : sign (mark ++ rest) = (negative, rest) := by
  cases h with
  | plus => rfl
  | minus => rfl
  | absent =>
      rw [List.nil_append]
      unfold sign
      split
      · exact absurd rfl (plain '+' rfl).1
      · exact absurd rfl (plain '-' rfl).2
      · rfl

theorem exists_radixMark (cs : List Char) :
    ∃ mark, cs = mark ++ (Numeral.radix cs).2 ∧ RadixMark mark (Numeral.radix cs).1 := by
  unfold Numeral.radix
  split
  · exact ⟨['0', 'x'], rfl, .hexadecimal (.inl rfl)⟩
  · exact ⟨['0', 'X'], rfl, .hexadecimal (.inr rfl)⟩
  · exact ⟨['#'], rfl, .hash⟩
  · exact ⟨['0', 'b'], rfl, .binary (.inl rfl)⟩
  · exact ⟨['0', 'B'], rfl, .binary (.inr rfl)⟩
  · exact ⟨['0', 'o'], rfl, .octal (.inl rfl)⟩
  · exact ⟨['0', 'O'], rfl, .octal (.inr rfl)⟩
  · exact ⟨[], rfl, .decimal⟩

def markLetters : List Char := ['x', 'X', 'b', 'B', 'o', 'O']

/-- **A mark is read up to the first digit**, and no mark is found where there is none: a decimal
digit is no mark, nor is a zero without a letter behind it. -/
theorem radix_append (h : RadixMark mark radix) {c : Char} {d : Nat} (digit : IsDigit radix c d)
    (plain : radix = 10 → ∀ e ∈ rest.head?, e ∉ markLetters) :
    Numeral.radix (mark ++ c :: rest) = (radix, c :: rest) := by
  cases h with
  | hash => rfl
  | hexadecimal letter => obtain rfl | rfl := letter <;> rfl
  | binary letter => obtain rfl | rfl := letter <;> rfl
  | octal letter => obtain rfl | rfl := letter <;> rfl
  | decimal =>
      have hash : c ≠ '#' := digit.forall (P := (· ≠ '#')) (n := 10) (by decide) (by decide)
      have letter (e : Char) (tail : List Char) (same : rest = e :: tail) : e ∉ markLetters :=
        plain rfl e (by rw [same]; rfl)
      rw [List.nil_append]
      unfold Numeral.radix
      split <;> simp_all [markLetters]

theorem exists_scaleMark (cs : List Char) :
    ∃ mark, cs = mark ++ (scale cs).2 ∧ ScaleMark mark (scale cs).1 := by
  unfold scale
  split
  · exact ⟨[], rfl, .absent⟩
  · next c rest =>
    cases power : scale? c with
    | none => exact ⟨[], rfl, .absent⟩
    | some n =>
        refine ⟨[c], rfl, ?_⟩
        unfold scale? at power
        grind [ScaleMark]

theorem scale_append {power : Nat} (h : ScaleMark mark power)
    (stop : ∀ c ∈ rest.head?, scale? c = none) : scale (mark ++ rest) = (power, rest) := by
  cases h with
  | kilo letter => obtain rfl | rfl := letter <;> rfl
  | mega letter => obtain rfl | rfl := letter <;> rfl
  | giga letter => obtain rfl | rfl := letter <;> rfl
  | tera letter => obtain rfl | rfl := letter <;> rfl
  | absent =>
      cases rest with
      | nil => rfl
      | cons c rest => rw [List.nil_append, scale, stop c rfl]

/-- What the digits at the front of a text are: a digit, and behind it a run that goes as far as it
can. -/
theorem exists_of_digits? (small : radix ≤ 16) {cs : List Char} {value : Nat}
    (h : digits? radix cs = some (value, rest)) :
    ∃ c d run ds, cs = c :: run ++ rest ∧ IsDigit radix c d ∧ Run radix run ds ∧
      value = Nat.ofDigits radix (d :: ds).reverse := by
  unfold digits? at h
  dsimp only at h
  split at h
  · cases h
  · next kept =>
    obtain ⟨rfl, rfl⟩ := Prod.mk.inj (Option.some.inj h)
    simp only [Bool.or_eq_true, not_or] at kept
    have all : ∀ c ∈ cs.takeWhile (isRunChar radix), isRunChar radix c = true :=
      fun c hc => List.mem_takeWhile_imp hc
    have cut := List.takeWhile_append_dropWhile (p := isRunChar radix) (l := cs)
    rw [digitsValue_eq]
    cases taken : cs.takeWhile (isRunChar radix) with
    | nil => simp [taken] at kept
    | cons c run =>
        rw [taken] at all cut kept
        obtain ⟨kind, others⟩ := List.forall_mem_cons.mp all
        -- The first character of the run is no underscore, so it is a digit.
        have underscore : c ≠ '_' := by simpa using kept.1.2
        have first : (digit? radix c).isSome := by simpa [isRunChar, underscore] using kind
        obtain ⟨d, value⟩ := Option.isSome_iff_exists.mp first
        refine ⟨c, d, run, run.filterMap (digit? radix), cut.symm,
          (digit?_eq_some_iff small).mp value, (run_iff small).mpr ⟨others, rfl⟩, ?_⟩
        rw [List.filterMap_cons_some value]

/-- **Digits are read as far as they go**, if their number is a word.  Leading zeros and underscores
do not count. -/
theorem digits?_append (small : radix ≤ 16) {c : Char} {d : Nat} {run : List Char} {ds : List Nat}
    (digit : IsDigit radix c d) (h : Run radix run ds)
    (stop : ∀ e ∈ rest.head?, isRunChar radix e = false)
    (fits : Nat.ofDigits radix (d :: ds).reverse < Word.count) :
    digits? radix (c :: run ++ rest) = some (Nat.ofDigits radix (d :: ds).reverse, rest) := by
  obtain ⟨all, values⟩ := (run_iff small).mp (.digit digit h)
  have underscore : c ≠ '_' := digit.forall (P := (· ≠ '_')) small (by decide)
  unfold digits?
  rw [Text.takeWhile_append_stop all stop, Text.dropWhile_append_stop all stop]
  simp only [digitsValue_eq, values]
  simp [underscore, Nat.not_le.mpr fits, -List.reverse_cons]

end Parts

/-! ### The reader of a literal -/

section Literals

variable {radix power : Nat} {mark run suffix rest : List Char} {ds : List Nat}

/-- What stands behind the digits of a literal: a letter of scale, or what may stand behind it. -/
theorem scale_or_end (h : ScaleMark suffix power) (ends : Ends rest) {e : Char}
    (he : e ∈ (suffix ++ rest).head?) :
    (scale? e).isSome ∨ suffix = [] ∧ Name.isIdentifierChar e = false := by
  cases h with
  | absent => exact .inr ⟨rfl, ends e he⟩
  | kilo letter => cases he; obtain rfl | rfl := letter <;> exact .inl rfl
  | mega letter => cases he; obtain rfl | rfl := letter <;> exact .inl rfl
  | giga letter => cases he; obtain rfl | rfl := letter <;> exact .inl rfl
  | tera letter => cases he; obtain rfl | rfl := letter <;> exact .inl rfl

theorem scale?_eq_none {c : Char} (outside : Name.isIdentifierChar c = false) :
    scale? c = none := by
  have letters : ∀ e ∈ ['k', 'K', 'm', 'M', 'g', 'G', 't', 'T'],
      Name.isIdentifierChar e = true := Text.forall_mem_of_all (by decide)
  by_contra scaled
  have letter : c ∈ ['k', 'K', 'm', 'M', 'g', 'G', 't', 'T'] := by
    unfold scale? at scaled
    grind
  rw [letters c letter] at outside
  cases outside

/-- The characters of a run are no letters of scale, and may stand in an identifier.  None of them
is blank. -/
theorem isRunChar_spec (small : radix ≤ 16) {c : Char} (h : isRunChar radix c = true) :
    scale? c = none ∧ Name.isIdentifierChar c = true ∧ Text.isBlank c = false := by
  rcases Bool.or_eq_true_iff.mp h with digit | underscore
  · obtain ⟨d, value⟩ := Option.isSome_iff_exists.mp digit
    exact ((digit?_eq_some_iff small).mp value).forall (P := fun c => scale? c = none ∧
      Name.isIdentifierChar c = true ∧ Text.isBlank c = false) small (by decide)
  · obtain rfl := beq_iff_eq.mp underscore
    decide

/-- Digits end where a letter of scale stands or the literal ends.  No hexadecimal digit is a letter
of scale, which is what makes the letters of scale safe behind every radix. -/
theorem run_stops (small : radix ≤ 16) (h : ScaleMark suffix power) (ends : Ends rest) :
    ∀ e ∈ (suffix ++ rest).head?, isRunChar radix e = false := by
  intro e he
  by_contra kind
  obtain ⟨letter, inside, -⟩ := isRunChar_spec small (Bool.eq_true_of_not_eq_false kind)
  rcases scale_or_end h ends he with scaled | ⟨-, outside⟩
  · rw [letter] at scaled
    cases scaled
  · rw [inside] at outside
    cases outside

/-- Behind the first digit of a decimal number stands no letter that would make a mark of it.  The
first digit may be a zero, and then the second character is what tells it from a mark. -/
theorem run_plain (hrun : Run 10 run ds) (hscale : ScaleMark suffix power) (ends : Ends rest) :
    ∀ e ∈ (run ++ suffix ++ rest).head?, e ∉ markLetters := by
  intro e he
  cases hrun with
  | digit digit _ =>
      obtain rfl := Option.some.inj he
      exact digit.forall (P := (· ∉ markLetters)) le_rfl (by decide)
  | separator _ =>
      obtain rfl := Option.some.inj he
      decide
  | nil =>
      rw [List.nil_append] at he
      intro letter
      have known : ∀ e ∈ markLetters, scale? e = none ∧ Name.isIdentifierChar e = true :=
        Text.forall_mem_of_all (by decide)
      obtain ⟨none_, inside⟩ := known e letter
      rcases scale_or_end hscale ends he with scaled | ⟨-, outside⟩
      · rw [none_] at scaled
        cases scaled
      · rw [inside] at outside
        cases outside

end Literals

/-- The parts of a literal are read one after another: the sign, the mark of the radix, the digits
and the scale. -/
theorem scaled?_eq (cs : List Char) :
    scaled? cs = (digits? (radix (sign cs).2).1 (radix (sign cs).2).2).bind fun digits =>
      let magnitude := digits.1 <<< (scale digits.2).1
      if magnitude < Word.count then some (⟨(sign cs).1, magnitude⟩, (scale digits.2).2)
      else none :=
  rfl

/-- **What is read at the front of a text is a literal**, and its number has a magnitude that is a
word. -/
theorem literal_of_scaled? {cs rest : List Char} {number : Scaled}
    (h : scaled? cs = some (number, rest)) :
    ∃ body, cs = body ++ rest ∧ Literal body number ∧ number.magnitude < Word.count := by
  obtain ⟨front, signed, hsign⟩ := exists_signMark cs
  obtain ⟨mark, marked, hradix⟩ := exists_radixMark (sign cs).2
  rw [scaled?_eq] at h
  obtain ⟨⟨value, behind⟩, hdigits, h⟩ := Option.bind_eq_some_iff.mp h
  obtain ⟨c, d, run, ds, written, digit, hrun, rfl⟩ := exists_of_digits? hradix.le hdigits
  obtain ⟨suffix, scaled, hscale⟩ := exists_scaleMark behind
  dsimp only at h
  split at h
  · next fits =>
    obtain ⟨rfl, rfl⟩ := Prod.mk.inj (Option.some.inj h)
    rw [Nat.shiftLeft_eq] at fits ⊢
    refine ⟨_, ?_, .mk hsign hradix digit hrun hscale, fits⟩
    rw [List.append_assoc, List.append_assoc, List.append_assoc, ← scaled, ← written, ← marked]
    exact signed
  · cases h

/-- No mark begins with a sign, and no digit is one. -/
theorem not_sign {radix d : Nat} {mark : List Char} {c : Char} (h : RadixMark mark radix)
    (digit : IsDigit radix c d) (behind : List Char) :
    ∀ e ∈ (mark ++ c :: behind).head?, e ≠ '+' ∧ e ≠ '-' := by
  intro e he
  cases h with
  | decimal =>
      obtain rfl := Option.some.inj he
      exact digit.forall (P := fun c => c ≠ '+' ∧ c ≠ '-') (n := 10) le_rfl (by decide)
  | hash => cases he; decide
  | hexadecimal _ => cases he; decide
  | binary _ => cases he; decide
  | octal _ => cases he; decide

/-- **A literal whose number is small enough is read** up to its end.  The five parts are taken in
turn, each with what stands behind it. -/
theorem scaled?_of_literal {body rest : List Char} {number : Scaled} (h : Literal body number)
    (fits : number.magnitude < Word.count) (ends : Ends rest) :
    scaled? (body ++ rest) = some (number, rest) := by
  cases h with
  | @mk front mark run suffix c negative radix power d ds hsign hradix digit hrun hscale =>
    dsimp only at fits
    have small : Nat.ofDigits radix (d :: ds).reverse < Word.count :=
      Nat.lt_of_le_of_lt (Nat.le_mul_of_pos_right _ (Nat.two_pow_pos power)) fits
    have plain : radix = 10 → ∀ e ∈ (run ++ (suffix ++ rest)).head?, e ∉ markLetters := by
      rintro rfl
      rw [← List.append_assoc]
      exact run_plain hrun hscale ends
    have stops := run_stops hradix.le hscale ends
    -- The sign is taken off, and what is left begins with the mark of the radix or with the first
    -- digit.
    have signed : sign (front ++ (mark ++ (c :: run ++ suffix)) ++ rest) =
        (negative, mark ++ c :: (run ++ (suffix ++ rest))) := by
      have := sign_append hsign (not_sign hradix digit (run ++ (suffix ++ rest)))
      simpa using this
    rw [scaled?_eq, signed]
    dsimp only
    rw [radix_append hradix digit plain]
    dsimp only
    rw [← List.cons_append, digits?_append hradix.le digit hrun stops small, Option.bind_some]
    dsimp only
    rw [scale_append hscale fun e he => scale?_eq_none (ends e he)]
    dsimp only
    rw [Nat.shiftLeft_eq, if_pos fits]

/-! ### Whole texts -/

theorem whole?_eq_some_iff {α : Type} {reader : List Char → Option (α × List Char)}
    {cs : List Char} {a : α} : whole? reader cs = some a ↔ reader cs = some (a, []) := by
  unfold whole?
  split
  · next value found => simp [found]
  · next other => simpa using fun found => other a found

/-- **A whole text is a literal** whose number is small enough. -/
theorem whole_scaled?_iff {cs : List Char} {number : Scaled} :
    whole? scaled? cs = some number ↔ Literal cs number ∧ number.magnitude < Word.count := by
  rw [whole?_eq_some_iff]
  constructor
  · intro h
    obtain ⟨body, rfl, literal, fits⟩ := literal_of_scaled? h
    rw [List.append_nil]
    exact ⟨literal, fits⟩
  · rintro ⟨literal, fits⟩
    have := scaled?_of_literal literal fits ends_nil
    rwa [List.append_nil] at this

/-- The number at the front of a text is the same where only zero may have a minus sign. -/
theorem unsigned?_eq_some_iff {cs rest : List Char} {n : Nat} :
    unsigned? cs = some (n, rest) ↔ ∃ number, scaled? cs = some (number, rest) ∧
      number.magnitude = n ∧ (number.negative = true → n = 0) := by
  unfold unsigned?
  simp only [Option.bind_eq_bind, Option.bind_eq_some_iff, Prod.exists]
  constructor
  · rintro ⟨number, behind, found, h⟩
    split at h
    · cases h
    · next kept =>
      obtain ⟨rfl, rfl⟩ := Prod.mk.inj (Option.some.inj h)
      exact ⟨number, found, rfl, by simpa using kept⟩
  · rintro ⟨number, found, rfl, zero⟩
    refine ⟨number, rest, found, if_neg ?_⟩
    simpa using zero

theorem whole_unsigned?_iff {cs : List Char} {n : Nat} :
    whole? unsigned? cs = some n ↔ ∃ number, Literal cs number ∧ number.magnitude = n ∧
      n < Word.count ∧ (number.negative = true → n = 0) := by
  rw [whole?_eq_some_iff, unsigned?_eq_some_iff]
  simp only [← whole?_eq_some_iff, whole_scaled?_iff]
  constructor
  · rintro ⟨number, ⟨literal, fits⟩, rfl, zero⟩
    exact ⟨number, literal, rfl, fits, zero⟩
  · rintro ⟨number, literal, rfl, fits, zero⟩
    exact ⟨number, ⟨literal, fits⟩, rfl, zero⟩

theorem SignMark.solid {mark : List Char} {negative : Bool} (h : SignMark mark negative) :
    ∀ c ∈ mark, Text.isBlank c = false := by
  cases h <;> exact Text.forall_mem_of_all (by decide)

theorem RadixMark.solid {mark : List Char} {radix : Nat} (h : RadixMark mark radix) :
    ∀ c ∈ mark, Text.isBlank c = false := by
  refine Text.forall_mem_of_all ?_
  cases h with
  | decimal => decide
  | hash => decide
  | hexadecimal letter => obtain rfl | rfl := letter <;> decide
  | binary letter => obtain rfl | rfl := letter <;> decide
  | octal letter => obtain rfl | rfl := letter <;> decide

theorem ScaleMark.solid {mark : List Char} {power : Nat} (h : ScaleMark mark power) :
    ∀ c ∈ mark, Text.isBlank c = false := by
  refine Text.forall_mem_of_all ?_
  cases h with
  | absent => decide
  | kilo letter => obtain rfl | rfl := letter <;> decide
  | mega letter => obtain rfl | rfl := letter <;> decide
  | giga letter => obtain rfl | rfl := letter <;> decide
  | tera letter => obtain rfl | rfl := letter <;> decide

/-- No character of a literal is blank. -/
theorem Literal.solid {body : List Char} {number : Scaled} (h : Literal body number) :
    ∀ c ∈ body, Text.isBlank c = false := by
  cases h with
  | @mk sign mark run suffix first negative radix power d ds hsign hradix digit hrun hscale =>
    have digits : ∀ c ∈ first :: run, Text.isBlank c = false := fun c hc =>
      (isRunChar_spec hradix.le (((run_iff hradix.le).mp (.digit digit hrun)).1 c hc)).2.2
    exact List.forall_mem_append.mpr ⟨hsign.solid, List.forall_mem_append.mpr
      ⟨hradix.solid, List.forall_mem_append.mpr ⟨digits, hscale.solid⟩⟩⟩

/-- What is left of a text by trimming is a literal exactly when the text is one between blanks.  No
character of a literal is blank, so trimming takes nothing from it. -/
theorem spells_iff {text : String} {number : Scaled} :
    Spells text number ↔ Literal (Text.trimChars text.toList) number := by
  constructor
  · rintro ⟨body, encloses, literal⟩
    rwa [(Text.trimChars_eq_iff (Text.bounded_of_solid literal.solid)).mpr encloses]
  · exact fun literal => ⟨_, Text.encloses_trimChars text, literal⟩

/-- A text is read as a word exactly when it spells one, with a minus sign for zero only. -/
theorem readWord_eq_ok_iff {text : String} {v : Word} : readWord text = .ok v ↔
    ∃ number, Spells text number ∧ number.magnitude = v.toNat ∧
      (number.negative = true → v = 0) := by
  have read : readWord text = .ok v ↔
      whole? unsigned? (Text.trimChars text.toList) = some v.toNat := by
    rw [readWord, ValueKind.read_eq_ok_iff]
    cases found : whole? unsigned? (Text.trimChars text.toList) with
    | none => simp
    | some n =>
        obtain ⟨-, -, -, small, -⟩ := whole_unsigned?_iff.mp found
        rw [Option.map_some, Option.some.injEq, Option.some.injEq, ← BitVec.toNat_inj,
          BitVec.toNat_ofNat, Nat.mod_eq_of_lt (show n < 2 ^ 64 from small)]
  have zero : v = 0 ↔ v.toNat = 0 := BitVec.toNat_inj.symm
  rw [read, whole_unsigned?_iff, zero]
  simp only [spells_iff, show v.toNat < Word.count from v.isLt, true_and]

/-- A text is read as a signed integer exactly when it spells one of 64 bits. -/
theorem readInteger_eq_ok_iff {text : String} {z : Int} : readInteger text = .ok z ↔
    ∃ number, Spells text number ∧ number.toInt = z ∧ -2 ^ 63 ≤ z ∧ z < 2 ^ 63 := by
  have read : readInteger text = .ok z ↔ ∃ number,
      whole? scaled? (Text.trimChars text.toList) = some number ∧ number.toInt = z ∧
        isInt64 z = true := by
    rw [readInteger, ValueKind.read_eq_ok_iff]
    cases whole? scaled? (Text.trimChars text.toList) with
    | none => simp
    | some number =>
        simp only [Option.map_some, Option.filter_eq_some_iff, Option.some.injEq, exists_eq_left']
  rw [read]
  refine exists_congr fun number => ?_
  rw [whole_scaled?_iff, spells_iff, isInt64, decide_eq_true_eq]
  constructor
  · rintro ⟨⟨literal, -⟩, rfl, inside⟩
    exact ⟨literal, rfl, inside⟩
  · rintro ⟨literal, rfl, inside⟩
    refine ⟨⟨literal, ?_⟩, rfl, inside⟩
    unfold Scaled.toInt at inside
    unfold Word.count
    split at inside
    · omega
    · omega

/-- **A text is read as a number exactly when it spells one.**  A word may have a minus sign only
when it is zero, a signed integer has 64 bits, and any other text is reported as it is. -/
theorem readNumber_iff (text : String) :
    (∀ v, readWord text = .ok v ↔ ∃ number, Spells text number ∧ number.magnitude = v.toNat ∧
      (number.negative = true → v = 0)) ∧
    (∀ z, readInteger text = .ok z ↔ ∃ number, Spells text number ∧ number.toInt = z ∧
      -2 ^ 63 ≤ z ∧ z < 2 ^ 63) ∧
    ((∃ v, readWord text = .ok v) ∨ readWord text = .error ⟨.integer, text⟩) ∧
    ((∃ z, readInteger text = .ok z) ∨ readInteger text = .error ⟨.integer, text⟩) := by
  exact ⟨fun v => readWord_eq_ok_iff, fun z => readInteger_eq_ok_iff,
    ValueKind.read_cases _ _ _, ValueKind.read_cases _ _ _⟩

example : readWord " 0x4000_0000 " = .ok 0x40000000 := by cbv

end ChipMap.Numeral
