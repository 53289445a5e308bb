import ChipMap.Numeral.Grouped
import ChipMap.Proofs.Numeral.Scaled
import Mathlib.Data.List.Basic
import Mathlib.Data.Nat.Digits.Lemmas

/-!
# Constants are read back

A constant of the produced source is a literal of a document too.  `IsConstant` says how a constant
is written: one decimal digit, or the hexadecimal digits of a number in groups of four.  **Every
word has one such text, and it is read as the word** (`hexConstant_written`), so no two words share
a constant.

### What is load-bearing

The groups are counted from the right, so a text grows by a whole group at its end (`group_append`),
and the underscores that part the groups are no digits, so the reader sees the digits of the number
and nothing else (`InGroups.run`).  The first character is a digit, since the first group is not
empty; a literal may not begin with an underscore.

The digits of a number are the library's (`Nat.digits`), and the text is made of the characters that
the core library writes for them.  `hexDigits_eq` is the bridge between the two.
-/

namespace ChipMap.Numeral

/-! ### How a constant is written -/

/-- **Digits in groups of four**, counted from the right, with one underscore between groups.  The
second list is the first one with the underscores. -/
inductive InGroups : List Char → List Char → Prop
  /-- The first group has up to four digits. -/
  | first {digits : List Char} : 1 ≤ digits.length → digits.length ≤ 4 → InGroups digits digits
  /-- Every other group has four. -/
  | behind {digits text four : List Char} : InGroups digits text → four.length = 4 →
    InGroups (digits ++ four) (text ++ '_' :: four)

/-- **The hexadecimal digits of a number**, by their values, the most significant first.  Zero has
none. -/
structure IsHexadecimal (n : Nat) (values : List Nat) : Prop where
  below : ∀ d ∈ values, d < 16
  /-- No zero leads. -/
  leading : values.head? ≠ some 0
  value : Nat.ofDigits 16 values.reverse = n

/-- **How a constant is written**: up to nine in decimal, and else in hexadecimal with groups. -/
inductive IsConstant : Nat → List Char → Prop
  | decimal {n : Nat} : n ≤ 9 → IsConstant n [Nat.digitChar n]
  | hexadecimal {n : Nat} {values : List Nat} {text : List Char} : 9 < n → IsHexadecimal n values →
    InGroups (values.map Nat.digitChar) text → IsConstant n ('0' :: 'x' :: text)

/-! ### Groups -/

theorem group_eq_self {digits : List Char} (short : digits.length ≤ 4) : group digits = digits := by
  rw [group, groupReversed, List.reverse_reverse]
  intro a b c d e rest long
  have := congrArg List.length long
  simp only [List.length_reverse, List.length_cons] at this
  omega

/-- **Four more digits are one more group**, when there are digits before them. -/
theorem group_append {digits four : List Char} (filled : digits ≠ []) (length : four.length = 4) :
    group (digits ++ four) = group digits ++ '_' :: four := by
  obtain ⟨a, b, c, d, rfl⟩ := List.length_eq_four.mp length
  obtain ⟨front, last, rfl⟩ := List.eq_nil_or_concat digits |>.resolve_left filled
  simp [group, groupReversed]

theorem InGroups.ne_nil {digits text : List Char} (h : InGroups digits text) : digits ≠ [] := by
  cases h with
  | first filled short => exact List.length_pos_iff.mp filled
  | behind inner length =>
      exact List.append_ne_nil_of_right_ne_nil _ (List.ne_nil_of_length_eq_add_one length)

/-- **Digits have one text in groups.**  The text is built from its first group, while the function
takes groups from the end; both are the same by induction on the number of digits. -/
theorem inGroups_iff {digits text : List Char} :
    InGroups digits text ↔ digits ≠ [] ∧ text = group digits := by
  constructor
  · intro h
    refine ⟨h.ne_nil, ?_⟩
    induction h with
    | first filled short => exact (group_eq_self short).symm
    | behind inner length ih => rw [group_append inner.ne_nil length, ih]
  · rintro ⟨filled, rfl⟩
    -- One group is taken from the end as long as there is a digit before it.
    induction hlength : digits.length using Nat.strongRecOn generalizing digits with
    | ind n ih =>
      by_cases short : digits.length ≤ 4
      · rw [group_eq_self short]
        exact .first (List.length_pos_iff.mpr filled) short
      · obtain ⟨front, four, rfl, length⟩ : ∃ front four, digits = front ++ four ∧ four.length = 4 :=
          ⟨_, _, (List.take_append_drop (digits.length - 4) digits).symm, by simp; omega⟩
        rw [List.length_append, length] at short hlength
        have before : front ≠ [] := by
          rintro rfl
          exact short (by decide)
        rw [group_append before length]
        exact .behind (ih front.length (by omega) before rfl) length

/-- **Groups add underscores to digits**, and none in front.  The reader of a number sees no
difference. -/
theorem InGroups.adds {digits text : List Char} (h : InGroups digits text) :
    (∀ c ∈ text, c ∈ digits ∨ c = '_') ∧
      text.filterMap (digit? 16) = digits.filterMap (digit? 16) ∧ text.head? = digits.head? := by
  induction h with
  | first filled short => exact ⟨fun c hc => .inl hc, rfl, rfl⟩
  | @behind digits text four inner length ih =>
      obtain ⟨chars, values, head⟩ := ih
      refine ⟨fun c hc => ?_, ?_, ?_⟩
      · rcases List.mem_append.mp hc with hc | hc
        · exact (chars c hc).imp_left (List.mem_append_left _)
        · rcases List.mem_cons.mp hc with rfl | hc
          · exact .inr rfl
          · exact .inl (List.mem_append_right _ hc)
      · rw [List.filterMap_append, List.filterMap_cons_none (digit?_underscore 16), values,
          List.filterMap_append]
      · rw [List.head?_append, head, List.head?_append]
        cases digits with
        | nil => exact absurd rfl inner.ne_nil
        | cons d ds => rfl

/-- **What is read in groups of digits** are the digits. -/
theorem InGroups.run {values : List Nat} {text : List Char}
    (h : InGroups (values.map Nat.digitChar) text) (below : ∀ d ∈ values, d < 16) :
    Run 16 text values := by
  have read : ∀ d ∈ values, digit? 16 (Nat.digitChar d) = some d := fun d hd =>
    (digit?_eq_some_iff le_rfl).mpr ⟨below d hd, .inl rfl⟩
  obtain ⟨chars, same, -⟩ := h.adds
  refine (run_iff le_rfl).mpr ⟨fun c hc => ?_, ?_⟩
  · rcases chars c hc with digit | rfl
    · obtain ⟨d, hd, rfl⟩ := List.mem_map.mp digit
      rw [isRunChar, read d hd]
      rfl
    · rfl
  · rw [same, List.filterMap_map]
    exact (List.filterMap_congr read).trans List.filterMap_some

/-! ### Digits -/

/-- The digits that are written of a number are those of its expansion. -/
theorem hexDigits_eq {n : Nat} (pos : 0 < n) :
    hexDigits n = (Nat.digits 16 n).reverse.map Nat.digitChar := by
  induction n using Nat.strongRecOn with
  | ind n ih =>
      rw [hexDigits, Nat.toDigits_eq_if (by decide), Nat.digits_def' (by decide) pos]
      split
      · next small => simp [Nat.div_eq_of_lt small, Nat.mod_eq_of_lt small]
      · next large =>
        have shorter := ih (n / 16) (by omega) (by omega)
        rw [hexDigits] at shorter
        simp [shorter]

/-- **A number has one list of hexadecimal digits.**  That no zero leads is what makes it unique. -/
theorem isHexadecimal_iff {n : Nat} {values : List Nat} :
    IsHexadecimal n values ↔ values = (Nat.digits 16 n).reverse := by
  constructor
  · rintro ⟨below, leading, rfl⟩
    rw [Nat.digits_ofDigits 16 (by decide) values.reverse (by simpa using below)]
    · rw [List.reverse_reverse]
    · intro filled zero
      rw [List.getLast_reverse] at zero
      exact leading ((List.head?_eq_some_head (by simpa using filled)).trans (congrArg _ zero))
  · rintro rfl
    refine ⟨fun d hd => Nat.digits_lt_base (by decide) (List.mem_reverse.mp hd), ?_, ?_⟩
    · rw [List.head?_reverse]
      intro zero
      have filled : Nat.digits 16 n ≠ [] := by
        intro empty
        rw [empty] at zero
        cases zero
      rw [List.getLast?_eq_some_getLast filled] at zero
      exact Nat.getLast_digit_ne_zero 16 (Nat.digits_ne_nil_iff_ne_zero.mp filled)
        (Option.some.inj zero)
    · rw [List.reverse_reverse, Nat.ofDigits_digits]

/-! ### Constants -/

/-- **A number has one constant.**  Together with the next theorem this says that constants are read
back. -/
theorem constant_iff {n : Nat} {text : String} :
    IsConstant n text.toList ↔ text = hexConstant n := by
  have digit : ∀ k ≤ 9, Nat.toDigits 10 k = [Nat.digitChar k] := by decide
  unfold hexConstant
  rw [← String.toList_inj]
  constructor
  · generalize text.toList = cs
    rintro (small | ⟨large, hex, groups⟩)
    · rw [if_pos small, Nat.toString_eq_repr, Nat.toList_repr, digit n small]
    · obtain rfl := isHexadecimal_iff.mp hex
      rw [if_neg (by omega), (inGroups_iff.mp groups).2, hexDigits_eq (by omega)]
      simp
  · intro same
    rw [same]
    split
    · next small =>
      rw [Nat.toString_eq_repr, Nat.toList_repr, digit n small]
      exact .decimal small
    · next large =>
      have pos : 0 < n := by omega
      have filled : (Nat.digits 16 n).reverse.map Nat.digitChar ≠ [] := by
        simpa [Nat.digits_ne_nil_iff_ne_zero] using pos.ne'
      have written := IsConstant.hexadecimal (by omega) (isHexadecimal_iff.mpr rfl)
        (inGroups_iff.mpr ⟨filled, rfl⟩)
      rw [hexDigits_eq pos]
      simpa using written

/-- **A constant is a literal** of its number, without sign and scale. -/
theorem IsConstant.literal {n : Nat} {text : List Char} (h : IsConstant n text) :
    Literal text ⟨false, n⟩ := by
  cases h with
  | decimal small =>
      have digit : IsDigit 10 (Nat.digitChar n) n := ⟨by omega, .inl rfl⟩
      simpa using Literal.mk .absent .decimal digit .nil .absent
  | @hexadecimal values text large hex groups =>
      have first : ∀ d ∈ values, Nat.digitChar d ≠ '_' := by
        intro d hd
        exact (by decide : ∀ k < 16, Nat.digitChar k ≠ '_') d (hex.below d hd)
      have head := groups.adds.2.2
      have value := hex.value
      -- The run of the digits begins with one, so it is not empty and no underscore is in front.
      cases groups.run hex.below with
      | nil =>
          subst value
          exact absurd large (by decide)
      | digit digit run =>
          have number := Literal.mk .absent (.hexadecimal (.inl rfl)) digit run .absent
          rw [value] at number
          simpa using number
      | separator run =>
          rw [List.head?_map, List.head?_cons] at head
          obtain ⟨d, hd, same⟩ := Option.map_eq_some_iff.mp head.symm
          exact absurd same (first d (List.mem_of_mem_head? hd))

/-- **Every word has one constant, which is read as the word**: a decimal digit, or hexadecimal
digits without a leading zero in groups of four.  Words that differ have constants that differ. -/
theorem hexConstant_written :
    (∀ v : Word, readWord (hexConstant v.toNat) = .ok v) ∧
      (∀ (v : Word) (text : String), IsConstant v.toNat text.toList ↔ text = hexConstant v.toNat) ∧
      Function.Injective fun v : Word => hexConstant v.toNat := by
  have read (v : Word) : readWord (hexConstant v.toNat) = .ok v := by
    have literal := (constant_iff.mpr (Eq.refl (hexConstant v.toNat))).literal
    have spells : Spells (hexConstant v.toNat) ⟨false, v.toNat⟩ :=
      ⟨_, ⟨[], [], by simp, by simp, by simp⟩, literal⟩
    exact readWord_eq_ok_iff.mpr ⟨_, spells, rfl, nofun⟩
  refine ⟨read, fun v text => constant_iff, fun v w same => ?_⟩
  have again : (.ok v : Except Malformed Word) = .ok w := by
    calc (.ok v : Except Malformed Word) = readWord (hexConstant v.toNat) := (read v).symm
      _ = readWord (hexConstant w.toNat) := congrArg readWord same
      _ = .ok w := read w
  exact Except.ok.inj again

example : hexConstant 0xABCDE = "0xa_bcde" := by decide

end ChipMap.Numeral
