import ChipMap.Proofs.Map.Fields
import ChipMap.Proofs.Order.Sorted

/-!
# Cases and interrupts that are repeated

The sets of a field often repeat a case, and a peripheral may list an interrupt more than once.
What is built from them is sorted, and of equal neighbours one is kept.  Nothing is lost by that,
and **each entry is kept once exactly when its repeats stand together** among the entries that they
are sorted with (`repeats_once_iff`): the order does not look at all that makes two entries
different, so another entry of the same key may come between two equal ones and keep them apart
(`repeats_alternating`).

### What is load-bearing

Sorting keeps the order of the entries of one key (`Name.filter_sortOn`), so which entries become
neighbours is read off the list before it is sorted (`sortOn_together_iff`).

Entries that are kept are renamed behind that and sorted once more.  This hides which of them were
equal, so the statement compares the result with a list without repeats of the given entries, up to
names and order (`OnePerDistinct`).

Cases and interrupts go through the same steps, and are two instances of one lemma
(`onePerDistinct_iff`).
-/

namespace ChipMap.Map

open Name (TotalOrder sortOn renameInOrder Numbers)

/-! ### Lists without equal neighbours -/

section Neighbours

variable {α : Type} [DecidableEq α]

/-- **No entry is left twice** exactly when no other entry stood between two equal ones.  The three
are a sublist, so they need not be neighbours. -/
theorem eraseReps_nodup_iff {l : List α} :
    l.eraseReps.Nodup ↔ ∀ a b, [a, b, a].Sublist l → b = a := by
  induction l with
  | nil =>
      refine ⟨fun _ a b inside => ?_, fun _ => List.nodup_nil⟩
      exact absurd inside.length_le (by simp)
  | cons x l ih =>
      cases l with
      | nil =>
          refine ⟨fun _ a b inside => ?_, fun _ => List.nodup_singleton x⟩
          exact absurd inside.length_le (by simp)
      | cons y l =>
          rw [eraseReps_cons_cons]
          split
          · next same =>
            subst same
            refine ih.trans ⟨fun once a b inside => ?_, fun once a b inside => ?_⟩
            · rcases List.sublist_cons_iff.mp inside with inside | ⟨_, first, inside⟩
              · exact once a b inside
              · -- The entry in front is `a`, and so is its neighbour, unless `b` is that neighbour.
                obtain ⟨rfl, rfl⟩ := List.cons.inj first
                rcases List.sublist_cons_iff.mp inside with inside | ⟨_, second, -⟩
                · exact once a b (inside.cons_cons a)
                · exact (List.cons.inj second).1
            · exact once a b (inside.cons x)
          · next other =>
            rw [List.nodup_cons, ih]
            constructor
            · rintro ⟨fresh, once⟩ a b inside
              rcases List.sublist_cons_iff.mp inside with inside | ⟨_, first, inside⟩
              · exact once a b inside
              · obtain ⟨rfl, rfl⟩ := List.cons.inj first
                have again : a ∈ y :: l := inside.subset (by simp)
                exact absurd (mem_eraseReps.mpr again) fresh
            · intro once
              refine ⟨fun again => ?_, fun a b inside => once a b (inside.cons x)⟩
              rcases List.mem_cons.mp (mem_eraseReps.mp again) with same | again
              · exact other same
              · refine other (once x y ?_).symm
                exact ((List.singleton_sublist.mpr again).cons_cons y).cons_cons x

end Neighbours

/-! ### Repeats in the order of a key -/

/-- **Repeats stand together**: between two equal entries there is no other one of their key. -/
def Together {α κ : Type} (key : α → κ) (given : List α) : Prop :=
  ∀ a b, [a, b, a].Sublist given → key b = key a → b = a

/-- **Nothing is lost and nothing is new**: each given entry is there under a name that it got, and
each entry that is there was given. -/
def Covers {α : Type} (renamed : α → α → Prop) (given result : List α) : Prop :=
  (∀ a ∈ given, ∃ x ∈ result, renamed a x) ∧ ∀ x ∈ result, ∃ a ∈ given, renamed a x

/-- **One entry for each distinct one**: the given entries without repeats, each under the name that
it got, in any order. -/
def OnePerDistinct {α : Type} (renamed : α → α → Prop) (given result : List α) : Prop :=
  ∃ distinct : List α, distinct.Nodup ∧ (∀ a, a ∈ distinct ↔ a ∈ given) ∧
    Shuffled renamed distinct result

section Repeats

variable {α κ κ' : Type} {le : κ → κ → Bool} {le' : κ' → κ' → Bool}
variable {key : α → κ} {key' : α → κ'} {given : List α}

theorem together_of_keyed (h : ∀ a ∈ given, ∀ b ∈ given, key b = key a → b = a) :
    Together key given :=
  fun a b inside => h a (inside.subset (by simp)) b (inside.subset (by simp))

/-- In a sorted list only entries of one key stand between equal ones, and they stand as before. -/
theorem sortOn_together_iff [DecidableEq κ] (order : TotalOrder le) :
    (∀ a b, [a, b, a].Sublist (sortOn le key given) → b = a) ↔ Together key given := by
  have keyed {a b : α} (same : key b = key a) :
      [a, b, a].filter (fun x => decide (key x = key a)) = [a, b, a] :=
    List.filter_eq_self.mpr (by simp [same])
  constructor
  · intro sorted a b inside same
    refine sorted a b ?_
    have own := inside.filter fun x => decide (key x = key a)
    rw [keyed same, ← Name.filter_sortOn order] at own
    exact own.trans List.filter_sublist
  · intro together a b inside
    have ascending := (Name.sortOn_pairwise order).sublist inside
    have same : key b = key a := by
      simp only [List.pairwise_cons, List.mem_cons, List.not_mem_nil, or_false] at ascending
      exact order.antisymm (ascending.2.1 a rfl) (ascending.1 b (.inl rfl))
    have own := inside.filter fun x => decide (key x = key a)
    rw [keyed same, Name.filter_sortOn order] at own
    exact together a b (own.trans List.filter_sublist) same

section Kept

variable [DecidableEq α] {name : α → String} {rename : α → String → α}

/-- The entries that are kept are those that were given. -/
theorem mem_kept {a : α} : a ∈ (sortOn le key given).eraseReps ↔ a ∈ given :=
  mem_eraseReps.trans Name.mem_sortOn

/-- What is kept is renamed and sorted again, which changes neither how many entries there are nor
which ones. -/
theorem kept_shuffled : Shuffled (fun a x => ∃ n, x = rename a n ∧ Numbers (name a) n)
    (sortOn le key given).eraseReps
    (sortOn le key (renameInOrder le' key' name rename (sortOn le key given).eraseReps)) := by
  obtain ⟨between, pairs, p⟩ :=
    Name.renameInOrder_shuffled Name.Claimed.choose_numbers (sortOn le key given).eraseReps
  exact ⟨between, pairs, p.trans (Name.sortOn_perm le key _).symm⟩

variable (key)

theorem covers_kept : Covers (fun a x => ∃ n, x = rename a n ∧ Numbers (name a) n) given
    (sortOn le key (renameInOrder le' key' name rename (sortOn le key given).eraseReps)) := by
  refine ⟨fun a ha => kept_shuffled.exists_right (mem_kept.mpr ha), fun x hx => ?_⟩
  obtain ⟨a, ha, renamed⟩ := kept_shuffled.exists_left hx
  exact ⟨a, mem_kept.mp ha, renamed⟩

/-- **Each entry is kept once exactly when its repeats stand together.** -/
theorem onePerDistinct_iff [DecidableEq κ] (order : TotalOrder le) :
    OnePerDistinct (fun a x => ∃ n, x = rename a n ∧ Numbers (name a) n) given
        (sortOn le key (renameInOrder le' key' name rename (sortOn le key given).eraseReps)) ↔
      Together key given := by
  rw [← sortOn_together_iff order, ← eraseReps_nodup_iff]
  constructor
  · rintro ⟨distinct, once, same, shuffled⟩
    have length := shuffled.length_eq
    rw [Name.length_sortOn, Name.length_renameInOrder] at length
    have kept : distinct.Subperm (sortOn le key given).eraseReps :=
      once.subperm fun a ha => mem_kept.mpr ((same a).mp ha)
    exact (kept.perm_of_length_le length.ge).nodup_iff.mp once
  · exact fun once => ⟨_, once, fun _ => mem_kept, kept_shuffled⟩

end Kept

end Repeats

/-! ### Cases and interrupts -/

/-- A case under the name that it got. -/
def EnumCase.Renamed (c x : EnumCase) : Prop := ∃ n, x = { c with name := n } ∧ Numbers c.name n

/-- An interrupt under the name that it got. -/
def Interrupt.Renamed (i x : Interrupt) : Prop := ∃ n, x = { i with name := n } ∧ Numbers i.name n

/-- What the order of cases looks at: not the description, nor the bits that take part. -/
def EnumCase.sortKey (c : EnumCase) : Bool × Nat × String := (c.isDefault, valueRank c.value, c.name)

/-- What the order of interrupts looks at: not the description. -/
def Interrupt.sortKey (i : Interrupt) : Int × String := (i.value, i.name)

/-- The cases of a field, from those of its description one by one. -/
theorem buildCases_repeats {path : String} {width : Nat} {f : Description.Field}
    {given : List EnumCase}
    (each : (f.enumeratedSets.flatMap (·.cases)).mapM (buildCase path width) = .ok given) :
    ∃ cases, buildCases path width f = .ok cases ∧ Covers EnumCase.Renamed given cases ∧
      (OnePerDistinct EnumCase.Renamed given cases ↔ Together EnumCase.sortKey given) :=
  ⟨_, bind_eq_ok.mpr ⟨given, each, rfl⟩, covers_kept EnumCase.sortKey,
    onePerDistinct_iff EnumCase.sortKey Name.textLe_totalOrder.lexLe.lexLe⟩

/-- The interrupts of a peripheral, from those of its description one by one. -/
theorem buildInterrupts_repeats {p : Description.Peripheral} {given : List Interrupt}
    (each : p.interrupts.mapM (buildInterrupt p.name) = .ok given) :
    ∃ interrupts, buildInterrupts p = .ok interrupts ∧ Covers Interrupt.Renamed given interrupts ∧
      (OnePerDistinct Interrupt.Renamed given interrupts ↔ Together Interrupt.sortKey given) :=
  ⟨_, bind_eq_ok.mpr ⟨given, each, rfl⟩, covers_kept Interrupt.sortKey,
    onePerDistinct_iff Interrupt.sortKey Name.textLe_totalOrder.lexLe⟩

/-- **Repeats are kept once exactly when they stand together.**  Cases and interrupts that can be
built one by one are built as a list, in which none of them is lost.  There is one entry in it for
each distinct one, whatever the order and number of the repeats, as long as no other entry of the
same name and value, and for cases of the same default mark, stands between two equal ones. -/
theorem repeats_once_iff (path : String) (width : Nat) (f : Description.Field)
    (p : Description.Peripheral) :
    (∀ given, (f.enumeratedSets.flatMap (·.cases)).mapM (buildCase path width) = .ok given →
      ∃ cases, buildCases path width f = .ok cases ∧ Covers EnumCase.Renamed given cases ∧
        (OnePerDistinct EnumCase.Renamed given cases ↔ Together EnumCase.sortKey given)) ∧
    ∀ given, p.interrupts.mapM (buildInterrupt p.name) = .ok given →
      ∃ interrupts, buildInterrupts p = .ok interrupts ∧ Covers Interrupt.Renamed given interrupts ∧
        (OnePerDistinct Interrupt.Renamed given interrupts ↔ Together Interrupt.sortKey given) :=
  ⟨fun _ each => buildCases_repeats each, fun _ each => buildInterrupts_repeats each⟩

/-- The field of a switch, whose sets have these cases. -/
def switchField (sets : List (List Description.EnumeratedCase)) : Description.Field where
  name := "F"
  derivedFrom := none
  description := none
  bitRange := some ⟨0, 1⟩
  access := none
  writeEffect := none
  writeConstraint := none
  readEffect := none
  dimension := none
  enumeratedSets := sets.map fun cases => ⟨none, none, cases⟩

/-- The case that the switch is on, with what is said of it. -/
def switchedOn (description : String) : Description.EnumeratedCase :=
  ⟨"ON", some description, some (.exactly 1), false⟩

/-- The case that the switch is off. -/
def switchedOff : Description.EnumeratedCase := ⟨"OFF", none, some (.exactly 0), false⟩

/-- An interrupt with what is said of it. -/
def tick (description : String) : Description.Interrupt := ⟨"TICK", some description, 5⟩

/-- A peripheral with these interrupts. -/
def clock (interrupts : List Description.Interrupt) : Description.Peripheral where
  name := "P"
  derivedFrom := none
  version := none
  description := none
  groupName := none
  prependToName := none
  appendToName := none
  baseAddress := some 0
  properties := .empty
  dimension := none
  addressBlocks := []
  interrupts
  children := []

/-- **Two sets with the same cases** become one list of them, and an interrupt that is listed three
times is there once. -/
theorem repeats_once_mirrored :
    (∃ given cases,
      ([switchedOff, switchedOn "a"] ++ [switchedOff, switchedOn "a"]).mapM (buildCase "P.R.F" 2) =
        .ok given ∧ Together EnumCase.sortKey given ∧
      buildCases "P.R.F" 2
        (switchField [[switchedOff, switchedOn "a"], [switchedOff, switchedOn "a"]]) =
        .ok cases ∧ OnePerDistinct EnumCase.Renamed given cases) ∧
    ∃ given interrupts, [tick "a", tick "a", tick "a"].mapM (buildInterrupt "P") = .ok given ∧
      Together Interrupt.sortKey given ∧
      buildInterrupts (clock [tick "a", tick "a", tick "a"]) = .ok interrupts ∧
      OnePerDistinct Interrupt.Renamed given interrupts := by
  have cases : ([switchedOff, switchedOn "a"] ++ [switchedOff, switchedOn "a"]).mapM
      (buildCase "P.R.F" 2) = .ok
        [⟨"OFF", none, some 0, 3, false⟩, ⟨"ON", some "a", some 1, 3, false⟩,
        ⟨"OFF", none, some 0, 3, false⟩, ⟨"ON", some "a", some 1, 3, false⟩] := rfl
  have interrupts : [tick "a", tick "a", tick "a"].mapM (buildInterrupt "P") =
      .ok [⟨"TICK", some "a", 5⟩, ⟨"TICK", some "a", 5⟩, ⟨"TICK", some "a", 5⟩] := rfl
  have laws := repeats_once_iff "P.R.F" 2
    (switchField [[switchedOff, switchedOn "a"], [switchedOff, switchedOn "a"]])
    (clock [tick "a", tick "a", tick "a"])
  obtain ⟨built, hbuilt, -, once⟩ := laws.1 _ cases
  obtain ⟨listed, hlisted, -, once'⟩ := laws.2 _ interrupts
  have together : Together EnumCase.sortKey [⟨"OFF", none, some 0, 3, false⟩,
      ⟨"ON", some "a", some 1, 3, false⟩, ⟨"OFF", none, some 0, 3, false⟩,
      ⟨"ON", some "a", some 1, 3, false⟩] := together_of_keyed (by decide)
  have together' : Together Interrupt.sortKey
      [⟨"TICK", some "a", 5⟩, ⟨"TICK", some "a", 5⟩, ⟨"TICK", some "a", 5⟩] :=
    together_of_keyed (by decide)
  exact ⟨⟨_, built, cases, together, hbuilt, once.mpr together⟩,
    _, listed, interrupts, together', hlisted, once'.mpr together'⟩

/-- **A repeat is kept** when another entry of its key stands before it: here one that says
something else of the same name and value. -/
theorem repeats_alternating :
    (∃ given cases,
      [switchedOn "a", switchedOn "b", switchedOn "a"].mapM (buildCase "P.R.F" 2) = .ok given ∧
      buildCases "P.R.F" 2 (switchField [[switchedOn "a", switchedOn "b"], [switchedOn "a"]]) =
        .ok cases ∧
      ¬OnePerDistinct EnumCase.Renamed given cases) ∧
    ∃ given interrupts, [tick "a", tick "b", tick "a"].mapM (buildInterrupt "P") = .ok given ∧
      buildInterrupts (clock [tick "a", tick "b", tick "a"]) = .ok interrupts ∧
      ¬OnePerDistinct Interrupt.Renamed given interrupts := by
  have cases : [switchedOn "a", switchedOn "b", switchedOn "a"].mapM (buildCase "P.R.F" 2) =
      .ok [⟨"ON", some "a", some 1, 3, false⟩, ⟨"ON", some "b", some 1, 3, false⟩,
        ⟨"ON", some "a", some 1, 3, false⟩] := rfl
  have interrupts : [tick "a", tick "b", tick "a"].mapM (buildInterrupt "P") =
      .ok [⟨"TICK", some "a", 5⟩, ⟨"TICK", some "b", 5⟩, ⟨"TICK", some "a", 5⟩] := rfl
  obtain ⟨built, hbuilt, -, once⟩ := buildCases_repeats
    (f := switchField [[switchedOn "a", switchedOn "b"], [switchedOn "a"]]) cases
  obtain ⟨listed, hlisted, -, once'⟩ := buildInterrupts_repeats
    (p := clock [tick "a", tick "b", tick "a"]) interrupts
  refine ⟨⟨_, built, cases, hbuilt, fun h => ?_⟩, _, listed, interrupts, hlisted, fun h => ?_⟩
  · exact absurd (once.mp h _ _ (List.Sublist.refl _) rfl) (by decide)
  · exact absurd (once'.mp h _ _ (List.Sublist.refl _) rfl) (by decide)

end ChipMap.Map
