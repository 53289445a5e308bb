import ChipMap.Proofs.Name.Identifier

/-!
# The words of a name

The words of a name hold its letters and digits (`flatten_caseWords`), and the key of a name is made
of these.  What stands around the words, an underscore in front of a digit or behind a reserved
word, has no key.

### What is load-bearing

A name is cut into words in two ways, at punctuation and at its humps.  Only the first one loses
characters, and it loses those that are no letters and no digits.  So the words of a name, put
together again, are what its key is computed from.

A key looks at single characters, so it is enough that the key of a text is the key of its parts
(`charsKey_append`) and that a change of case leaves the key of a character alone.  The latter is
checked for the 128 characters of ASCII.
-/

namespace ChipMap.Name

/-! ### The words of a name -/

/-- The pieces of a text that is cut hold the characters it is not cut at, and no others. -/
theorem flatten_splitOnP {p : Char → Bool} {cs : List Char} :
    (cs.splitOnP p).flatten = cs.filter fun c => !p c := by
  induction cs with
  | nil => rfl
  | cons c rest ih =>
      rw [List.splitOnP_cons_eq_if_modifyHead]
      by_cases h : p c
      · simp [h, ih]
      · cases pieces : rest.splitOnP p with
        | nil => exact absurd pieces (List.splitOnP_ne_nil p rest)
        | cons first others =>
            rw [pieces] at ih
            simpa [h] using ih

/-- The humps of a text hold all of it: a hump begins where another ends. -/
theorem flatten_humps (cs : List Char) : (humps cs).flatten = cs := by
  fun_induction humps cs with
  | case1 => rfl
  | case2 => rfl
  | case3 c d rest cut ih => simp [ih]
  | case4 c d rest joined word words found ih =>
      rw [found] at ih
      simpa using ih
  | case5 c d rest joined found ih =>
      rw [found] at ih
      cases ih

/-- **The words of a name hold its letters and digits**, in order.  Letters of other scripts are no
letters here. -/
theorem flatten_caseWords (name : String) :
    (caseWords name).flatten = name.toList.filter Char.isAlphanum := by
  have pieces := @flatten_splitOnP (fun c => !c.isAlphanum) name.toList
  rw [caseWords, List.flatMap_def, List.flatten_flatten]
  simpa [Function.comp_def, flatten_humps] using pieces

/-! ### Keys -/

/-- A property of the letters and digits of ASCII is one of 128 characters. -/
theorem forall_isAlphanum {P : Char → Prop}
    (h : ∀ n < 128, (Char.ofNat n).isAlphanum = true → P (Char.ofNat n)) (c : Char)
    (hc : c.isAlphanum = true) : P c := by
  have small := val_le_of_isIdentifierChar (show isIdentifierChar c = true by
    simp [isIdentifierChar, hc])
  have here := h c.toNat (Nat.lt_succ_of_le (UInt32.le_iff_toNat_le.mp small))
  rw [Char.ofNat_toNat] at here
  exact here hc

theorem key_toUpper : ∀ c : Char, c.isAlphanum = true →
    c.toUpper.isAlphanum = true ∧ c.toUpper.toLower = c.toLower :=
  forall_isAlphanum (by decide +kernel)

theorem key_toLower : ∀ c : Char, c.isAlphanum = true →
    c.toLower.isAlphanum = true ∧ c.toLower.toLower = c.toLower :=
  forall_isAlphanum (by decide +kernel)

/-- What of a list of characters the cases of a name depend on: its letters and digits, in small
letters. -/
def charsKey (cs : List Char) : List Char := (cs.filter Char.isAlphanum).map Char.toLower

theorem charsKey_append (a b : List Char) : charsKey (a ++ b) = charsKey a ++ charsKey b := by
  simp [charsKey]

theorem charsKey_caseLead (words : List (List Char)) : charsKey (caseLead words) = [] := by
  unfold caseLead
  split
  · split
    · decide
    · rfl
  · rfl

/-- An underscore behind a reserved word does not change its key.  Thus an escaped name is as
distinct from other names as the name itself. -/
theorem distinctKey_escapeReserved (name : String) :
    distinctKey (escapeReserved name) = distinctKey name := by
  unfold escapeReserved
  split
  · rw [distinctKey_append, show distinctKey "_" = [] by decide, List.append_nil]
  · rfl

end ChipMap.Name
