import ChipMap.Word.Bits

/-!
# Grouped hexadecimal constants

Addresses and values stand in the produced source as constants.  One digit is written in decimal; a
longer number is written in hexadecimal with an underscore before every fourth digit from the right,
as such numbers are read by people.  Offsets of members and the bounds of ranges in messages are
written without groups, and in hexadecimal throughout.

* `hexDigits` — the hexadecimal digits of a number, lower case, without a leading zero.
* `group` — digits with an underscore before every fourth from the right.
* `hexConstant` — the constant that stands for a number.
* `hexPlain` — the same without groups, and in hexadecimal for a single digit too.

### What is load-bearing

Groups are counted from the right, and a list is taken apart from the left, so digits are grouped in
reverse (`groupReversed`).  The characters of a constant are hexadecimal digits and underscores
(`isAlphanum_of_mem_hexDigits`, `mem_of_mem_groupReversed`); that such a text is read back as the
number is proved where the readers of numbers are.
-/

namespace ChipMap.Numeral

/-- The hexadecimal digits of a number, most significant first.  Zero has one digit. -/
def hexDigits (n : Nat) : List Char :=
  Nat.toDigits 16 n

/-- The underscores are placed from the right, so this works on reversed digits: one after every
fourth digit that has a digit behind it.  No underscore ends the digits. -/
def groupReversed : List Char → List Char
  | a :: b :: c :: d :: e :: rest => a :: b :: c :: d :: '_' :: groupReversed (e :: rest)
  | digits => digits

/-- Digits in groups of four from the right, with one underscore between groups. -/
def group (digits : List Char) : List Char :=
  (groupReversed digits.reverse).reverse

/-- The constant for `n`: a single decimal digit, or `0x` and grouped hexadecimal digits.  Below ten
both radices have the same digit, and the mark would only be in the way. -/
def hexConstant (n : Nat) : String :=
  if n ≤ 9 then toString n else "0x" ++ String.ofList (group (hexDigits n))

/-- The constant for `n` without groups: `0x` and hexadecimal digits, also for a single digit. -/
def hexPlain (n : Nat) : String :=
  "0x" ++ String.ofList (hexDigits n)

/-! ### The characters of a constant -/

/-- A hexadecimal digit is a letter or a digit, by recursion on the number without its last one. -/
theorem isAlphanum_of_mem_hexDigits {n : Nat} {c : Char} (h : c ∈ hexDigits n) :
    c.isAlphanum = true := by
  have digit : ∀ k < 16, (Nat.digitChar k).isAlphanum = true := by decide
  induction n using Nat.strongRecOn with
  | ind n ih =>
      rw [hexDigits, Nat.toDigits_eq_if (by decide)] at h
      split at h
      · next small =>
        rw [List.mem_singleton.mp h]
        exact digit n small
      · next large =>
        rcases List.mem_append.mp h with front | last
        · exact ih (n / 16) (Nat.div_lt_self (by omega) (by decide)) front
        · rw [List.mem_singleton.mp last]
          exact digit _ (Nat.mod_lt n (by decide))

/-- Grouping adds underscores only, and keeps the digits that there are. -/
theorem mem_of_mem_groupReversed {digits : List Char} {c : Char} (h : c ∈ groupReversed digits) :
    c ∈ digits ∨ c = '_' := by
  fun_induction groupReversed digits with
  | case1 a b c' d e rest ih =>
      simp only [List.mem_cons] at h ⊢
      rcases h with h | h | h | h | h | h
      · exact .inl (.inl h)
      · exact .inl (.inr (.inl h))
      · exact .inl (.inr (.inr (.inl h)))
      · exact .inl (.inr (.inr (.inr (.inl h))))
      · exact .inr h
      · rcases ih h with h | h
        · exact .inl (.inr (.inr (.inr (.inr (List.mem_cons.mp h)))))
        · exact .inr h
  | case2 digits short => exact .inl h

end ChipMap.Numeral
