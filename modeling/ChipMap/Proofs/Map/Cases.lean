import ChipMap.Proofs.Map.Fields
import ChipMap.Proofs.Numeral.Pattern

/-!
# What the cases of a field match

The value of a case is a pattern of 64 bits.  A case of a map keeps only as many bits as its field
has, and nothing is lost with the others: **a word that fits the field matches the case of the map
when it matches the pattern of the description** (`buildCases_caseFor`).

With what is known of written patterns this says what the text of a case stands for, from the
document to the map (`readPattern_matches`).

### What is load-bearing

A pattern whose value does not fit the field is a fault, so the bits that are cut off are bits of
the mask only, and a word that fits has none of them (`Bits.and_mask_of_toNat_lt`).

Of equal neighbours one case is kept, and all get names of their own.  So cases of the map and of
the description do not correspond one to one, and the statement is made in both directions: there is
a case for each, and each is for some case.
-/

namespace ChipMap.Map

open Numeral (Marked Settled Led Hashed written readPattern readWord)

/-! ### The cases of a field -/

/-- **A case of a map is for a case of a description**: it says the same, and of the words that fit
the field it is for the same ones.  Its name may have got a number. -/
structure CaseFor (width : Nat) (c : Description.EnumeratedCase) (e : EnumCase) : Prop where
  description : e.description = c.description
  isDefault : e.isDefault = c.isDefault
  value : e.value = c.value.map (·.value)
  /-- A word that fits matches both or neither. -/
  words : ∀ p ∈ c.value, ∀ n : Word, n.toNat < 2 ^ width →
    (n &&& e.mask = p.value ↔ n &&& p.mask = p.value)

/-- A word that fits is compared with a pattern by the bits of the field alone, as it has no
others. -/
theorem and_fieldMask_eq_iff {width : Nat} {n mask value : Word} (fits : n.toNat < 2 ^ width) :
    n &&& (mask &&& Bits.mask ⟨0, width⟩) = value ↔ n &&& mask = value := by
  rw [BitVec.and_comm mask, ← BitVec.and_assoc, Bits.and_mask_of_toNat_lt fits]

theorem buildCase_caseFor {path : String} {width : Nat} {c : Description.EnumeratedCase}
    {e : EnumCase} (h : buildCase path width c = .ok e) : CaseFor width c e := by
  obtain ⟨⟨value, mask⟩, hpattern, h⟩ := bind_eq_ok.mp h
  obtain ⟨name, -, h⟩ := bind_eq_ok.mp h
  obtain rfl := Except.ok.inj h
  unfold casePattern at hpattern
  cases described : c.value with
  | none =>
      rw [described] at hpattern
      obtain ⟨rfl, rfl⟩ := Prod.mk.inj (Except.ok.inj hpattern)
      refine ⟨rfl, rfl, by rw [described]; rfl, ?_⟩
      rw [described]
      exact fun _ none_ => nomatch none_
  | some p =>
      rw [described] at hpattern
      dsimp only at hpattern
      split at hpattern
      · cases hpattern
      · obtain ⟨rfl, rfl⟩ := Prod.mk.inj (Except.ok.inj hpattern)
        refine ⟨rfl, rfl, by rw [described]; rfl, ?_⟩
        rw [described]
        rintro _ ⟨⟩ n fits
        exact and_fieldMask_eq_iff fits

/-- **The cases of a field are for those of its description**, and there are no others. -/
theorem buildCases_caseFor {path : String} {width : Nat} {f : Description.Field}
    {cases : List EnumCase} (h : buildCases path width f = .ok cases) :
    (∀ c ∈ f.enumeratedSets.flatMap (·.cases), ∃ e ∈ cases, CaseFor width c e) ∧
      ∀ e ∈ cases, ∃ c ∈ f.enumeratedSets.flatMap (·.cases), CaseFor width c e := by
  obtain ⟨built, hbuilt, h⟩ := bind_eq_ok.mp h
  obtain rfl := Except.ok.inj h
  have rename {c : Description.EnumeratedCase} {e : EnumCase} (name : String)
      (h : CaseFor width c e) : CaseFor width c { e with name } :=
    ⟨h.description, h.isDefault, h.value, h.words⟩
  constructor
  · intro c hc
    obtain ⟨e, he, step⟩ := exists_of_forall₂ (mapM_eq_ok.mp hbuilt) hc
    have kept : e ∈ (sortCases built).eraseReps :=
      mem_eraseReps.mpr (Name.mem_sortOn.mpr he)
    simp only [sortCases, Name.mem_sortOn] at kept ⊢
    exact Name.exists_mem_renameInOrder kept fun name => rename name (buildCase_caseFor step)
  · intro x hx
    refine Name.forall_mem_renameInOrder
      (P := fun x => ∃ c ∈ f.enumeratedSets.flatMap (·.cases), CaseFor width c x) ?_ x
      (Name.mem_sortOn.mp hx)
    intro e he name _
    obtain ⟨c, hc, step⟩ :=
      exists_of_mapM_eq_ok hbuilt (Name.mem_sortOn.mp (mem_eraseReps.mp he))
    exact ⟨c, hc, rename name (buildCase_caseFor step)⟩

/-! ### What a written case matches -/

/-- **What the value of a case matches.**  With a mark it matches the words that have its digits,
and else the integer that it is.  Without an open digit its value is the integer of the same digits,
where an integer can be written with them.  A case of a map matches the same words as long as they
fit its field. -/
theorem readPattern_matches {text : String} {p : Pattern} (read : readPattern text = .ok p) :
    (∀ mark run, Marked text mark run →
      ∀ n, n &&& p.mask = p.value ↔ Pattern.HasDigits (written run) n) ∧
    (¬Hashed text → ∀ v, readWord text = .ok v → ∀ n, n &&& p.mask = p.value ↔ n = v) ∧
    ((∃ mark run, Marked text mark run) ∨ ¬Hashed text ∧ ∃ v, readWord text = .ok v) ∧
    (∀ mark run, Marked text mark run → Settled run →
      (readWord (String.ofList ('0' :: 'b' :: run)) = .ok p.value ↔ Led run) ∧
        (readWord (String.ofList ('0' :: 'b' :: written run)) = .ok p.value ↔ written run ≠ [])) ∧
    ∀ path width f cases, buildCases path width f = .ok cases →
      (∀ c ∈ f.enumeratedSets.flatMap (·.cases), c.value = some p →
        ∃ e ∈ cases, e.value = some p.value ∧ e.description = c.description ∧
          e.isDefault = c.isDefault ∧
          ∀ n : Word, n.toNat < 2 ^ width → (n &&& e.mask = p.value ↔ n &&& p.mask = p.value)) ∧
      ∀ e ∈ cases, ∃ c ∈ f.enumeratedSets.flatMap (·.cases), CaseFor width c e := by
  refine ⟨fun mark run h n => Numeral.matches_of_marked read h, fun plain v word n => ?_, ?_,
    fun mark run h settled => ?_, fun path width f cases built => ?_⟩
  · exact Numeral.matches_of_word read plain word
  · rcases Numeral.readPattern_eq_ok_iff.mp read with ⟨mark, run, h, -⟩ | ⟨-, plain, v, word, -⟩
    · exact .inl ⟨mark, run, h⟩
    · exact .inr ⟨plain, v, word⟩
  · -- Without open digits the value is that of the run, which is what a reader of numbers gives.
    have value := Numeral.digitsValue_of_settled read h settled
    constructor
    · rw [Numeral.readWord_binary_iff h.chars]
      exact ⟨fun word => word.2.1, fun led => ⟨settled, led, value⟩⟩
    · have chars : ∀ c ∈ written run, c ∈ Numeral.patternChars := fun c hc =>
        h.chars c (List.mem_of_mem_filter hc)
      rw [Numeral.readWord_binary_iff chars, Numeral.digitsValue_written, Numeral.led_written]
      refine ⟨fun word => word.2.1, fun some_ => ⟨⟨fun open_ => ?_, fun open_ => ?_⟩, some_, value⟩⟩
      · exact settled.1 (List.mem_of_mem_filter open_)
      · exact settled.2 (List.mem_of_mem_filter open_)
  · obtain ⟨each, back⟩ := buildCases_caseFor built
    refine ⟨fun c hc hvalue => ?_, back⟩
    obtain ⟨e, he, same⟩ := each c hc
    exact ⟨e, he, by rw [same.value, hvalue]; rfl, same.description, same.isDefault,
      same.words p hvalue⟩

/-- A field with a case whose middle bit is open. -/
def openField : Description.Field where
  name := "F"
  derivedFrom := none
  description := none
  bitRange := some ⟨0, 2⟩
  access := none
  writeEffect := none
  writeConstraint := none
  readEffect := none
  dimension := none
  enumeratedSets := [⟨none, none, [⟨"C", none, some ⟨4, ~~~2⟩, false⟩]⟩]

theorem readPattern_matches_open :
    (readPattern "#1x0" = .ok ⟨4, ~~~2⟩ ∧
      (∀ n : Word, n &&& ~~~2 = 4 ↔ Pattern.HasDigits ['1', 'x', '0'] n) ∧
      buildCases "P.R.F" 3 openField = .ok [⟨"C", none, some 4, 5, false⟩] ∧
      ∀ n : Word, n.toNat < 2 ^ 3 → (n &&& 5 = 4 ↔ n &&& ~~~2 = 4)) ∧
    readPattern "#1_0" = .ok ⟨2, BitVec.allOnes 64⟩ ∧ readWord "0b1_0" = .ok 2 := by
  have half : readPattern "#1x0" = .ok ⟨4, ~~~2⟩ := by cbv
  have built : buildCases "P.R.F" 3 openField = .ok [⟨"C", none, some 4, 5, false⟩] := by cbv
  have whole : readPattern "#1_0" = .ok ⟨2, BitVec.allOnes 64⟩ := by cbv
  have marked : Marked "#1x0" ['#'] ['1', 'x', '0'] :=
    Numeral.marked_ofList .hash (Text.forall_mem_of_all (by decide))
  have marked' : Marked "#1_0" ['#'] ['1', '_', '0'] :=
    Numeral.marked_ofList .hash (Text.forall_mem_of_all (by decide))
  obtain ⟨digits, -, -, -, fields⟩ := readPattern_matches half
  obtain ⟨-, -, -, settled, -⟩ := readPattern_matches whole
  refine ⟨⟨half, digits _ _ marked, built, ?_⟩, whole, ?_⟩
  · obtain ⟨e, he, -, -, -, same⟩ := (fields _ _ _ _ built).1 _ List.mem_cons_self rfl
    obtain rfl := List.mem_singleton.mp he
    exact same
  · exact (settled _ _ marked' ⟨by decide, by decide⟩).1.mpr ⟨'1', rfl, by decide⟩

/-- A separator alone is a pattern, and no integer is written with its digits. -/
theorem readPattern_digitless :
    readPattern "#_" = .ok ⟨0, BitVec.allOnes 64⟩ ∧ Marked "#_" ['#'] ['_'] ∧ Settled ['_'] ∧
      (∀ v, readWord "0b_" ≠ .ok v) ∧ ∀ v, readWord "0b" ≠ .ok v := by
  have separator : ∀ c ∈ ['_'], c ∈ Numeral.patternChars := Text.forall_mem_of_all (by decide)
  refine ⟨by cbv, Numeral.marked_ofList .hash separator, ⟨by decide, by decide⟩, ?_, ?_⟩
  · intro v word
    exact Numeral.not_led_of_head rfl ((Numeral.readWord_binary_iff separator).mp word).2.1
  · intro v word
    obtain ⟨c, digit, -⟩ := ((Numeral.readWord_binary_iff (List.forall_mem_nil _)).mp word).2.1
    cases digit

end ChipMap.Map
