import ChipMap.Proofs.Name.Spelling
import Mathlib.Data.Nat.Find
import Mathlib.Order.Bounds.Basic

/-!
# Which name a claim gives out

Names are claimed one after another.  A claim gives out the wanted name when nothing that was given
out meets it, that is, when no name agrees with it in letters and digits, and else the wanted name
with the first number that meets nothing.  **So do the claims of every list of names, and what is
given out stays apart in each of the three cases** (`claimAll_answers`).

### What is load-bearing

The search for a number has no bound of its own (`Search`).  It ends because the names that are
tried have keys of their own, and the wanted name, which is taken, has yet another one: of as many
numbers as names were given out **one is free** (`exists_free_of_meets`).  That names stay apart in
every case rests on the key alone, which no change of case loses (`IsCase.key`).

A list of claims is described at each of its places, by what stands before the place.  The names
behind it make no difference, so the claims are made in order and none is taken back.
-/

namespace ChipMap.Name

open Claimed (numbered)

/-! ### Names that meet -/

/-- **A name meets one of some names** when both are the same but for the case of letters and for
whatever is no letter and no digit.  A name meets itself. -/
def Meets (names : List String) (name : String) : Prop :=
  ∃ other ∈ names, distinctKey other = distinctKey name

instance (names : List String) (name : String) : Decidable (Meets names name) :=
  inferInstanceAs (Decidable (∃ other ∈ names, _))

/-- **The search for a number**, as it goes: one number after another, up to the first whose name
meets nothing. -/
inductive Search (names : List String) (wanted : String) : Nat → Nat → Prop
  | free {n : Nat} : ¬Meets names (numbered wanted n) → Search names wanted n n
  | taken {n last : Nat} : Meets names (numbered wanted n) → Search names wanted (n + 1) last →
    Search names wanted n last

/-- **What a claim gives out** when some names were given out before.  The two parts exclude each
other, and together they fix the name. -/
structure Answers (before : List String) (wanted given : String) : Prop where
  /-- The wanted name is kept exactly when it meets nothing. -/
  kept : given = wanted ↔ ¬Meets before wanted
  /-- Else the search ends, after no more numbers than there are names, and its last number is the
  least that is free. -/
  searched : Meets before wanted → ∃ n ≤ before.length, Search before wanted 1 n ∧
    IsLeast {k | 1 ≤ k ∧ ¬Meets before (numbered wanted k)} n ∧ given = numbered wanted n

/-! ### The search -/

section Search

variable {names : List String} {wanted : String}

/-- **A search ends at the first number that is free**, if there is one.  The induction is on the
distance to it. -/
theorem search_of_first {first last : Nat} (le : first ≤ last)
    (free : ¬Meets names (numbered wanted last))
    (taken : ∀ k, first ≤ k → k < last → Meets names (numbered wanted k)) :
    Search names wanted first last := by
  induction le using Nat.decreasingInduction with
  | self => exact .free free
  | of_succ first below ih =>
      exact .taken (taken first le_rfl below) (ih fun k later => taken k (by omega))

/-- A number changes the key of a name. -/
theorem distinctKey_numbered_ne (name : String) (n : Nat) :
    distinctKey (numbered name n) ≠ distinctKey name := by
  simp [distinctKey_numbered]

/-- **A free number is among the first**, as many as there are names: the wanted name and the names
with these numbers are one more than can be taken. -/
theorem exists_free_of_meets (meets : Meets names wanted) :
    ∃ n, 1 ≤ n ∧ n ≤ names.length ∧ ¬Meets names (numbered wanted n) := by
  by_contra all
  push Not at all
  let numbers := (List.range names.length).map fun i => distinctKey (numbered wanted (i + 1))
  have apart : (distinctKey wanted :: numbers).Nodup := by
    refine List.nodup_cons.mpr ⟨fun again => ?_, List.nodup_range.map fun i j same => ?_⟩
    · obtain ⟨i, -, same⟩ := List.mem_map.mp again
      exact distinctKey_numbered_ne wanted (i + 1) same
    · have := distinctKey_numbered_inj same
      omega
  have taken : distinctKey wanted :: numbers ⊆ names.map distinctKey := by
    refine List.cons_subset.mpr ⟨List.mem_map.mpr meets, fun key hkey => ?_⟩
    obtain ⟨i, hi, rfl⟩ := List.mem_map.mp hkey
    exact List.mem_map.mpr (all (i + 1) (by omega) (List.mem_range.mp hi))
  have := (apart.subperm taken).length_le
  simp [numbers] at this

/-- **The least free number** is one of them, and no greater than the number of names. -/
theorem exists_least_of_meets (meets : Meets names wanted) :
    ∃ n ≤ names.length, IsLeast {k | 1 ≤ k ∧ ¬Meets names (numbered wanted k)} n := by
  obtain ⟨n, pos, most, free⟩ := exists_free_of_meets meets
  have some : ∃ k, 1 ≤ k ∧ ¬Meets names (numbered wanted k) := ⟨n, pos, free⟩
  refine ⟨Nat.find some, (Nat.find_min' some ⟨pos, free⟩).trans most, Nat.find_spec some, ?_⟩
  exact fun k hk => Nat.find_min' some hk

end Search

/-! ### Claims -/

namespace Claimed

/-- **A state holds the keys of some names**, those that were given out, the latest first. -/
def Holds (s : Claimed) (names : List String) : Prop :=
  s.keys = (names.map distinctKey).reverse

/-- The state after a list of claims, one after another. -/
def after (s : Claimed) (wanted : List String) : Claimed :=
  wanted.foldl (fun s name => (s.claim name).2) s

/-- **Claims go on from the state that earlier ones leave.** -/
theorem claimList_append (s : Claimed) (before behind : List String) :
    s.claimList (before ++ behind) = s.claimList before ++ (s.after before).claimList behind := by
  induction before generalizing s with
  | nil => rfl
  | cons name rest ih => exact congrArg (s.choose name :: ·) (ih (s.add (s.choose name)))

theorem Holds.add {s : Claimed} {names : List String} (h : s.Holds names) (name : String) :
    (s.add name).Holds (names ++ [name]) := by
  rw [Holds, Claimed.add, h, List.map_append, List.reverse_append]
  rfl

theorem Holds.after {s : Claimed} {names : List String} (h : s.Holds names) (wanted : List String) :
    (s.after wanted).Holds (names ++ s.claimList wanted) := by
  induction wanted generalizing s names with
  | nil => rwa [claimList_nil, List.append_nil]
  | cons name rest ih =>
      have later := ih (h.add (s.choose name))
      rwa [List.append_assoc] at later

section Holds

variable {s : Claimed} {names : List String} (h : s.Holds names)

include h

theorem Holds.isFree_iff {name : String} : s.isFree name = true ↔ ¬Meets names name := by
  rw [Claimed.isFree_iff, h, List.mem_reverse, List.mem_map, Meets]

/-- **The number that is found** is the first one that is free. -/
theorem Holds.firstFree_eq {wanted : String} {n : Nat} (most : n ≤ names.length)
    (least : IsLeast {k | 1 ≤ k ∧ ¬Meets names (numbered wanted k)} n) :
    s.firstFree wanted = numbered wanted n := by
  obtain ⟨⟨pos, free⟩, first⟩ := least
  obtain ⟨i, rfl⟩ := Nat.exists_eq_add_of_le' pos
  have length : s.keys.length = names.length := by
    rw [h, List.length_reverse, List.length_map]
  have found : ((List.range (s.keys.length + 1)).find? fun i => s.isFree (numbered wanted (i + 1))) =
      some i := by
    refine List.find?_range_eq_some.mpr ⟨h.isFree_iff.mpr free, by simp; omega, fun j before => ?_⟩
    have taken : s.isFree (numbered wanted (j + 1)) ≠ true := fun free =>
      absurd (first ⟨by omega, h.isFree_iff.mp free⟩) (by omega)
    simpa using taken
  rw [firstFree, found]

/-- **One claim.** -/
theorem Holds.answers (wanted : String) : Answers names wanted (s.choose wanted) := by
  by_cases meets : Meets names wanted
  · obtain ⟨n, most, least⟩ := exists_least_of_meets meets
    have given : s.choose wanted = numbered wanted n := by
      rw [choose, if_neg fun free => h.isFree_iff.mp free meets, h.firstFree_eq most least]
    have other : s.choose wanted ≠ wanted := fun same =>
      distinctKey_numbered_ne wanted n (congrArg distinctKey (given.symm.trans same))
    have searched : Search names wanted 1 n := by
      refine search_of_first least.1.1 least.1.2 fun k pos before => ?_
      by_contra free
      exact absurd (least.2 ⟨pos, free⟩) (by omega)
    exact ⟨⟨fun same => absurd same other, fun free => absurd meets free⟩,
      fun _ => ⟨n, most, searched, least, given⟩⟩
  · have free : s.isFree wanted = true := h.isFree_iff.mpr meets
    have kept : s.choose wanted = wanted := if_pos free
    exact ⟨⟨fun _ => meets, fun _ => kept⟩, fun taken => absurd taken meets⟩

end Holds

end Claimed

/-- **Claims one after another** give out names as `Answers` says, each for what was given out
before it, and all names that are given out stay apart in each case. -/
theorem claimAll_answers :
    (∀ (before : List String) (wanted : String) (behind : List String), ∃ given later,
      claimAll (before ++ wanted :: behind) = claimAll before ++ given :: later ∧
        Answers (claimAll before) wanted given) ∧
    ∀ names, ((claimAll names).map snakeCase).Nodup ∧ ((claimAll names).map camelCase).Nodup ∧
      ((claimAll names).map constantCase).Nodup := by
  have apart {change : String → String} (isCase : IsCase change) (names : List String) :
      ((claimAll names).map change).Nodup := by
    refine List.Nodup.of_map distinctKey ?_
    rw [List.map_map]
    exact (List.map_congr_left fun name _ => isCase.key name).symm ▸ claimAll_nodup names
  refine ⟨fun before wanted behind => ?_, fun names => ⟨apart isCase_snakeCase names,
    apart isCase_camelCase names, apart isCase_constantCase names⟩⟩
  have nothing : Claimed.empty.Holds [] := rfl
  have held : (Claimed.empty.after before).Holds (claimAll before) := nothing.after before
  exact ⟨_, _, Claimed.claimList_append _ before (wanted :: behind), held.answers wanted⟩

example : claimAll ["CR", "cr", "CR_1", "C_R", "SR"] = ["CR", "cr_1", "CR_1_1", "C_R_2", "SR"] := by
  decide

end ChipMap.Name
