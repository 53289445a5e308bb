import ChipMap.Text.Blank
import Mathlib.Data.List.TakeWhile

/-!
# A text between blanks

A scalar of a document may have blanks around it.  `Encloses` says so of the text, and **dropping
the outer blanks of a text finds what it encloses** (`trimChars_eq_iff`), as long as what is
enclosed has no blank at its own ends.

### What is load-bearing

A text encloses several bodies: with every body also those that keep some of the blanks.  Only one
of them has no blank at its ends (`Bounded`), and that is the one which trimming finds.  What the
readers of values look for is of this kind, since none of their parts is blank.
-/

namespace ChipMap.Text

/-! ### Where a run stops -/

section Run

variable {α : Type} {p : α → Bool} {run rest : List α}

/-- A run is taken up to the first entry that is not of its kind.  All readers that take a run of
characters stop for this reason. -/
theorem takeWhile_append_stop (inside : ∀ x ∈ run, p x = true)
    (stop : ∀ x ∈ rest.head?, p x = false) : (run ++ rest).takeWhile p = run := by
  rw [List.takeWhile_append_of_pos inside]
  cases rest with
  | nil => rw [List.takeWhile_nil, List.append_nil]
  | cons x rest =>
      rw [List.takeWhile_cons, stop x rfl, if_neg Bool.false_ne_true, List.append_nil]

theorem dropWhile_append_stop (inside : ∀ x ∈ run, p x = true)
    (stop : ∀ x ∈ rest.head?, p x = false) : (run ++ rest).dropWhile p = rest := by
  rw [List.dropWhile_append_of_pos inside]
  cases rest with
  | nil => rfl
  | cons x rest => rw [List.dropWhile_cons, stop x rfl, if_neg Bool.false_ne_true]

end Run

/-- **What holds of each character of a list**, checked one by one.  There are finitely many
characters, so to decide it without the list would be to check all of them. -/
theorem forall_mem_of_all {P : Char → Prop} [DecidablePred P] {cs : List Char}
    (h : (cs.all fun c => decide (P c)) = true) : ∀ c ∈ cs, P c :=
  fun c hc => of_decide_eq_true (List.all_eq_true.mp h c hc)

/-! ### Blanks around a body -/

/-- **A text is a body with blanks around it.**  The blanks may be absent on either side, and the
body may begin or end with blanks of its own. -/
def Encloses (text : String) (body : List Char) : Prop :=
  ∃ before after, text.toList = before ++ body ++ after ∧ (∀ c ∈ before, isBlank c = true) ∧
    ∀ c ∈ after, isBlank c = true

/-- **There is no blank at the ends** of a body.  An empty body is bounded. -/
structure Bounded (body : List Char) : Prop where
  /-- The first character, if there is one. -/
  first : ∀ c ∈ body.head?, isBlank c = false
  /-- The last character, if there is one. -/
  last : ∀ c ∈ body.getLast?, isBlank c = false

theorem bounded_of_solid {body : List Char} (solid : ∀ c ∈ body, isBlank c = false) :
    Bounded body :=
  ⟨fun c hc => solid c (List.mem_of_mem_head? hc),
    fun c hc => solid c (List.mem_of_mem_getLast? hc)⟩

theorem trimEnd_append {body after : List Char} (blank : ∀ c ∈ after, isBlank c = true)
    (last : ∀ c ∈ body.getLast?, isBlank c = false) : trimEnd (body ++ after) = body := by
  rw [trimEnd, List.reverse_append, dropWhile_append_stop, List.reverse_reverse]
  · exact fun c hc => blank c (List.mem_reverse.mp hc)
  · rwa [List.head?_reverse]

theorem trimChars_of_encloses {text : String} {body : List Char} (bounded : Bounded body)
    (h : Encloses text body) : trimChars text.toList = body := by
  obtain ⟨before, after, written, blank, blank'⟩ := h
  rw [trimChars, trimStart, written, List.append_assoc]
  cases body with
  | nil =>
      -- The blanks in front and those behind are one run.
      have all : ∀ c ∈ before ++ after, isBlank c = true := fun c hc =>
        (List.mem_append.mp hc).elim (blank c) (blank' c)
      rw [List.nil_append, List.dropWhile_eq_nil_iff.mpr all]
      rfl
  | cons c rest =>
      have first : ∀ d ∈ (c :: rest ++ after).head?, isBlank d = false := bounded.first
      rw [dropWhile_append_stop blank first]
      exact trimEnd_append blank' bounded.last

/-- A text encloses what is left of it by trimming. -/
theorem encloses_trimChars (text : String) : Encloses text (trimChars text.toList) := by
  have dropped (cs : List Char) :
      ∃ before, cs = before ++ cs.dropWhile isBlank ∧ ∀ c ∈ before, isBlank c = true :=
    ⟨cs.takeWhile isBlank, List.takeWhile_append_dropWhile.symm,
      fun _ hc => List.mem_takeWhile_imp hc⟩
  obtain ⟨before, front, blank⟩ := dropped text.toList
  obtain ⟨after, behind, blank'⟩ := dropped (trimStart text.toList).reverse
  refine ⟨before, after.reverse, ?_, blank, fun c hc => blank' c (List.mem_reverse.mp hc)⟩
  have tail := congrArg List.reverse behind
  rw [List.reverse_reverse, List.reverse_append] at tail
  rw [List.append_assoc, trimChars, trimEnd, ← tail]
  exact front

/-- **Dropping outer blanks finds what a text encloses.**  So "between blanks" may be said of a text
without naming the function that drops them. -/
theorem trimChars_eq_iff {text : String} {body : List Char} (bounded : Bounded body) :
    trimChars text.toList = body ↔ Encloses text body := by
  constructor
  · rintro rfl
    exact encloses_trimChars text
  · exact trimChars_of_encloses bounded

/-- **Outer blanks may be dropped before**: they make no difference to what a text encloses.  A
scope drops them once, and the reader of a value does it again. -/
theorem encloses_trim_iff {text : String} {body : List Char} (bounded : Bounded body) :
    Encloses (trim text) body ↔ Encloses text body := by
  have written : (trim text).toList = trimChars text.toList := String.toList_ofList
  constructor
  · rintro ⟨before, after, inside, blank, blank'⟩
    obtain ⟨before', after', outside, blanks, blanks'⟩ := encloses_trimChars text
    refine ⟨before' ++ before, after ++ after', ?_, List.forall_mem_append.mpr ⟨blanks, blank⟩,
      List.forall_mem_append.mpr ⟨blank', blanks'⟩⟩
    rw [outside, ← written, inside]
    simp only [List.append_assoc]
  · intro h
    refine ⟨[], [], ?_, (fun _ hc => nomatch hc), (fun _ hc => nomatch hc)⟩
    rw [written, trimChars_of_encloses bounded h, List.nil_append, List.append_nil]

end ChipMap.Text
