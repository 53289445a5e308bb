import ChipMap.Name.Order
import Mathlib.Data.List.Nodup
import Mathlib.Data.List.Perm.Subperm

/-!
# Claimed names stay apart

A claim that finds its name taken tries the name with the numbers from one on.  Numbers that differ
give keys that differ, so among one number more than there are names given out **one is free**: the
fall-back of `firstFree` is never used.  Names that are claimed one after another therefore have
distinct keys (`claimAll_nodup`), and a claim of an identifier gives an identifier out.

### What is load-bearing

A name with a number is the name, an underscore and the digits of the number.  The key drops the
underscore but keeps the digits, and a number can be read back from its digits (`toDigits_inj`).

What is said of one claim carries over to a list of them in two forms: a property that every claim
keeps holds of all names given out (`Claimed.forall_mem_claimList`), and a relation that ties every
claim to its wanted name ties the two lists (`Claimed.claimList_forall₂`).  Both are by induction on
the list, with the names given out so far as the state.
-/

namespace ChipMap.Name

/-! ### Keys -/

theorem distinctKey_append (a b : String) :
    distinctKey (a ++ b) = distinctKey a ++ distinctKey b := by
  simp only [distinctKey, String.toList_append, List.filter_append, List.map_append]

theorem toLower_of_isDigit {c : Char} (h : c.isDigit = true) : c.toLower = c := by
  have digit : c.toNat ≤ '9'.toNat := (Char.isDigit_iff_toNat.mp h).2
  have small : ¬('A'.val ≤ c.val ∧ c.val ≤ 'Z'.val) := fun upper =>
    absurd (Nat.le_trans (UInt32.le_iff_toNat_le.mp upper.1) digit) (by decide)
  exact dif_neg small

/-- The key of a number is its digits, which have no case. -/
theorem distinctKey_toString (n : Nat) : distinctKey (toString n) = Nat.toDigits 10 n := by
  have digit : ∀ c ∈ Nat.toDigits 10 n, c.isDigit = true := fun c hc =>
    Nat.isDigit_of_mem_toDigits (by decide) (by decide) hc
  rw [distinctKey, Nat.toString_eq_repr, Nat.toList_repr]
  rw [List.filter_eq_self.mpr fun c hc => by simp [Char.isAlphanum, digit c hc]]
  calc (Nat.toDigits 10 n).map Char.toLower
      = (Nat.toDigits 10 n).map id :=
        List.map_congr_left fun c hc => toLower_of_isDigit (digit c hc)
    _ = Nat.toDigits 10 n := List.map_id _

theorem distinctKey_numbered (name : String) (n : Nat) :
    distinctKey (Claimed.numbered name n) = distinctKey name ++ Nat.toDigits 10 n := by
  rw [Claimed.numbered, distinctKey_append, distinctKey_append, distinctKey_toString]
  rw [show distinctKey "_" = [] by decide, List.append_nil]

theorem toDigits_inj {m n : Nat} (h : Nat.toDigits 10 m = Nat.toDigits 10 n) : m = n := by
  calc m = Nat.ofDigitChars 10 (Nat.toDigits 10 m) 0 := Nat.ofDigitChars_ten_toDigits.symm
    _ = Nat.ofDigitChars 10 (Nat.toDigits 10 n) 0 := by rw [h]
    _ = n := Nat.ofDigitChars_ten_toDigits

theorem toString_inj {m n : Nat} (h : toString m = toString n) : m = n := by
  have digits := congrArg String.toList h
  rw [Nat.toString_eq_repr, Nat.toString_eq_repr, Nat.toList_repr, Nat.toList_repr] at digits
  exact toDigits_inj digits

/-- **Numbers that differ give keys that differ**, whatever the name in front of them is. -/
theorem distinctKey_numbered_inj {name : String} {m n : Nat}
    (h : distinctKey (Claimed.numbered name m) = distinctKey (Claimed.numbered name n)) :
    m = n := by
  rw [distinctKey_numbered, distinctKey_numbered] at h
  exact toDigits_inj (List.append_cancel_left h)

/-! ### Claims -/

namespace Claimed

theorem isFree_iff {s : Claimed} {name : String} :
    s.isFree name = true ↔ distinctKey name ∉ s.keys := by
  simp [isFree]

/-- **Some number is free**: there are more numbers to try than names given out.  If all were taken,
as many distinct keys would be among the fewer keys that are kept. -/
theorem exists_free (s : Claimed) (name : String) :
    ∃ i ∈ List.range (s.keys.length + 1), s.isFree (numbered name (i + 1)) = true := by
  by_contra none
  push Not at none
  let tried := (List.range (s.keys.length + 1)).map fun i => distinctKey (numbered name (i + 1))
  have apart : tried.Nodup := by
    refine List.Nodup.map ?_ List.nodup_range
    intro i j same
    have := distinctKey_numbered_inj same
    omega
  have taken : tried ⊆ s.keys := by
    intro key hkey
    obtain ⟨i, hi, rfl⟩ := List.mem_map.mp hkey
    by_contra free
    exact none i hi (isFree_iff.mpr free)
  have := (apart.subperm taken).length_le
  simp only [tried, List.length_map, List.length_range] at this
  omega

/-- **The number that a name gets is free.**  It is the first free one, which is said elsewhere. -/
theorem firstFree_spec (s : Claimed) (name : String) :
    ∃ n, s.firstFree name = numbered name n ∧ s.isFree (numbered name n) = true := by
  unfold firstFree
  cases found : (List.range (s.keys.length + 1)).find? fun i => s.isFree (numbered name (i + 1)) with
  | none =>
      obtain ⟨i, hi, free⟩ := s.exists_free name
      exact absurd free (List.find?_eq_none.mp found i hi)
  | some i =>
      have free : s.isFree (numbered name (i + 1)) = true := List.find?_some (p := fun i =>
        s.isFree (numbered name (i + 1))) found
      exact ⟨i + 1, rfl, free⟩

/-- A claim gives out the name itself or the name with a number, and in either case a name whose key
is new. -/
theorem choose_spec (s : Claimed) (name : String) :
    (s.choose name = name ∨ ∃ n, s.choose name = numbered name n) ∧
      distinctKey (s.choose name) ∉ s.keys := by
  unfold choose
  split
  · next free => exact ⟨.inl rfl, isFree_iff.mp free⟩
  · obtain ⟨n, same, free⟩ := s.firstFree_spec name
    rw [same]
    exact ⟨.inr ⟨n, rfl⟩, isFree_iff.mp free⟩

/-- **Claims one after another give out names with distinct keys**, none of which was given out
before.  The second part is what the induction needs. -/
theorem claimList_keys (s : Claimed) (names : List String) :
    ((s.claimList names).map distinctKey).Nodup ∧
      ∀ name ∈ s.claimList names, distinctKey name ∉ s.keys := by
  induction names generalizing s with
  | nil => simp
  | cons name rest ih =>
      obtain ⟨apart, fresh⟩ := ih (s.add (s.choose name))
      refine ⟨?_, ?_⟩
      · rw [claimList, List.map_cons, List.nodup_cons]
        refine ⟨?_, apart⟩
        intro again
        obtain ⟨other, hother, same⟩ := List.mem_map.mp again
        exact fresh other hother (same ▸ List.mem_cons_self)
      · intro other hother
        rcases List.mem_cons.mp hother with rfl | later
        · exact (s.choose_spec name).2
        · exact fun known => fresh other later (List.mem_cons_of_mem _ known)

end Claimed

/-- What a claim keeps of the wanted name holds of all names that are given out. -/
theorem Claimed.forall_mem_claimList {P : String → Prop}
    (keeps : ∀ (s : Claimed) name, P name → P (s.choose name)) (s : Claimed) {names : List String}
    (h : ∀ name ∈ names, P name) : ∀ name ∈ s.claimList names, P name := by
  induction names generalizing s with
  | nil => exact h
  | cons wanted rest ih =>
      intro name hname
      rcases List.mem_cons.mp hname with rfl | hname
      · exact keeps s wanted (h wanted List.mem_cons_self)
      · exact ih _ (fun n hn => h n (List.mem_cons_of_mem _ hn)) name hname

/-- **All names that are given out have distinct keys.**  So they stay apart in every case that a
name is written in. -/
theorem claimAll_nodup (names : List String) : ((claimAll names).map distinctKey).Nodup :=
  (Claimed.empty.claimList_keys names).1

/-! ### Identifiers -/

/-- What stands behind an identifier leaves it one, as long as it has characters of identifiers
only. -/
theorem IsIdentifier.append {name : String} (h : IsIdentifier name) {behind : String}
    (chars : behind.toList.all isIdentifierChar = true) : IsIdentifier (name ++ behind) := by
  obtain ⟨all, alphanumeric, first⟩ := h
  refine ⟨?_, ?_, ?_⟩
  · rw [String.toList_append, List.all_append, all, chars, Bool.true_and]
  · rw [String.toList_append, List.any_append, alphanumeric, Bool.true_or]
  · rw [String.toList_append]
    cases hchars : name.toList with
    | nil => rw [hchars] at alphanumeric; cases alphanumeric
    | cons c rest =>
        rw [hchars] at first
        exact first

theorem isDigit_of_mem_toString {n : Nat} {c : Char} (h : c ∈ (toString n).toList) :
    c.isDigit = true := by
  rw [Nat.toString_eq_repr, Nat.toList_repr] at h
  exact Nat.isDigit_of_mem_toDigits (by decide) (by decide) h

/-- A name with a number behind it has the form of an identifier when the name has. -/
theorem IsIdentifier.append_toString {name : String} (h : IsIdentifier name) (n : Nat) :
    IsIdentifier (name ++ toString n) := by
  refine h.append (List.all_eq_true.mpr fun c hc => ?_)
  rw [isIdentifierChar, Char.isAlphanum, isDigit_of_mem_toString hc, Bool.or_true, Bool.true_or]

theorem IsIdentifier.numbered {name : String} (h : IsIdentifier name) (n : Nat) :
    IsIdentifier (Claimed.numbered name n) :=
  (h.append rfl).append_toString n

theorem IsIdentifier.choose {name : String} (h : IsIdentifier name) (s : Claimed) :
    IsIdentifier (s.choose name) := by
  rcases (s.choose_spec name).1 with same | ⟨n, same⟩
  · rw [same]
    exact h
  · rw [same]
    exact h.numbered n

/-- **Claims give out one name for each wanted one**, and what ties every claim to its wanted name
ties them. -/
theorem Claimed.claimList_forall₂ {R : String → String → Prop}
    (each : ∀ (s : Claimed) wanted, R wanted (s.choose wanted)) (s : Claimed) (names : List String) :
    List.Forall₂ R names (s.claimList names) := by
  induction names generalizing s with
  | nil => exact .nil
  | cons name rest ih => exact .cons (each s name) (ih _)

/-- **A name, or the name with a number.**  This is all that a claim does to a name. -/
def Numbers (wanted given : String) : Prop :=
  given = wanted ∨ ∃ n, given = Claimed.numbered wanted n

theorem Claimed.choose_numbers (s : Claimed) (wanted : String) :
    Numbers wanted (s.choose wanted) :=
  (s.choose_spec wanted).1

end ChipMap.Name
