import ChipMap.Proofs.Name.Claim
import ChipMap.Proofs.Text.Blank
import ChipMap.Target.Path

/-!
# Written paths are read back

A path is cut at its dots, and a part of it at its first bracket.  The name of a node is an
identifier, so it holds neither, and **each segment of a written path is read as itself**
(`Segment.read_render`, `pathParts_renderPath`).  The number of an element is written in decimal
digits alone, which the reader of plain numbers takes back (`Numeral.decimal?_toDigits`).

### What is load-bearing

Reading a path back and telling paths apart are two facts, and the second needs less: the number of
an element may be any number, not only a word (`Segment.render_inj`).  It is the one that makes
listed names distinct, where numbers are not bounded.
-/

namespace ChipMap.Numeral

theorem digit?_of_isDigit {c : Char} (h : c.isDigit = true) :
    digit? 10 c = some (c.toNat - '0'.toNat) := by
  simp only [Char.isDigit, ge_iff_le, Bool.and_eq_true, decide_eq_true_eq] at h
  have low : '0' ≤ c := h.1
  have high : c ≤ '9' := h.2
  have value : c.toNat - 48 < 10 := by
    have : c.toNat ≤ 57 := UInt32.le_iff_toNat_le.mp h.2
    omega
  simp [digit?, low, high, value]

/-- The value of a run of plain digits behind a number that was read. -/
theorem foldl_digits {cs : List Char} (h : ∀ c ∈ cs, c.isDigit = true) (n : Nat) :
    (cs.filterMap (digit? 10)).foldl (fun n d => n * 10 + d) n = Nat.ofDigitChars 10 cs n := by
  induction cs generalizing n with
  | nil => simp
  | cons c rest ih =>
      have here := digit?_of_isDigit (h c List.mem_cons_self)
      have others := ih fun d hd => h d (List.mem_cons_of_mem _ hd)
      rw [List.filterMap_cons_some here, List.foldl_cons, others, Nat.ofDigitChars_cons,
        Nat.mul_comm n 10]

/-- **A word written in decimal digits is read back.** -/
theorem decimal?_toDigits {n : Nat} (h : n < Word.count) :
    decimal? (Nat.toDigits 10 n) = some n := by
  have digit : ∀ c ∈ Nat.toDigits 10 n, c.isDigit = true := fun c hc =>
    Nat.isDigit_of_mem_toDigits (by decide) (by decide) hc
  have value : digitsValue 10 (Nat.toDigits 10 n) = n := by
    rw [digitsValue, foldl_digits digit, Nat.ofDigitChars_toDigits (by decide) (by decide)]
  have some_digit : (Nat.toDigits 10 n).isEmpty = false := by
    simp [Nat.toDigits_ne_nil]
  have all : (Nat.toDigits 10 n).all Char.isDigit = true := List.all_eq_true.mpr digit
  unfold decimal?
  split
  · next rest same =>
    have plus := digit '+' (by rw [same]; exact List.mem_cons_self)
    exact absurd plus (by decide)
  · simp [value, some_digit, all, h]

end ChipMap.Numeral

namespace ChipMap.Target

open Name (IsIdentifier)

/-- An identifier holds no character that cuts a path, neither a dot nor a bracket. -/
theorem not_mem_of_isIdentifier {name : String} (h : IsIdentifier name) {c : Char}
    (cut : Name.isIdentifierChar c = false) : c ∉ name.toList := by
  intro hc
  have := List.all_eq_true.mp h.1 c hc
  rw [cut] at this
  cases this

theorem ne_nil_of_isIdentifier {name : String} (h : IsIdentifier name) : name.toList ≠ [] := by
  intro empty
  have alphanumeric := h.2.1
  rw [empty] at alphanumeric
  cases alphanumeric

namespace Segment

theorem toList_render (s : Segment) :
    s.render.toList = s.name.toList ++
      s.index.elim [] fun i => '[' :: (Nat.toDigits 10 i ++ [']']) := by
  unfold render
  cases s.index with
  | none => simp
  | some i => simp [Nat.toString_eq_repr, Nat.toList_repr]

/-- A name ends where the first bracket is. -/
theorem span_render {s : Segment} (name : IsIdentifier s.name) :
    s.render.toList.takeWhile (· != '[') = s.name.toList ∧
      s.render.toList.dropWhile (· != '[') =
        s.index.elim [] fun i => '[' :: (Nat.toDigits 10 i ++ [']']) := by
  have plain : ∀ c ∈ s.name.toList, (c != '[') = true := fun c hc =>
    bne_iff_ne.mpr fun same => not_mem_of_isIdentifier name (by decide) (same ▸ hc)
  have stop : ∀ c ∈ (s.index.elim [] fun i => '[' :: (Nat.toDigits 10 i ++ [']'])).head?,
      (c != '[') = false := by
    cases s.index with
    | none => exact fun _ none_ => nomatch none_
    | some i => exact fun c hc => Option.some.inj hc ▸ rfl
  rw [toList_render]
  exact ⟨Text.takeWhile_append_stop plain stop, Text.dropWhile_append_stop plain stop⟩

/-- **A written segment is read as itself**, when its number is that of an element. -/
theorem read_render {s : Segment} (name : IsIdentifier s.name)
    (index : ∀ i ∈ s.index, i < Word.count) : read s.render = .ok s := by
  have nonempty := ne_nil_of_isIdentifier name
  unfold read
  dsimp only
  rw [(span_render name).1, (span_render name).2]
  obtain ⟨text, number⟩ := s
  cases number with
  | none => simpa [render] using nonempty
  | some i =>
      have ends : beforeBracket? (Nat.toDigits 10 i ++ [']']) = some (Nat.toDigits 10 i) := by
        simp [beforeBracket?]
      have read_index := Numeral.decimal?_toDigits (index i rfl)
      simp [ends, read_index, nonempty]

/-- **A written segment tells which one it is**, whatever its number. -/
theorem render_inj {s t : Segment} (hs : IsIdentifier s.name) (ht : IsIdentifier t.name)
    (h : s.render = t.render) : s = t := by
  have names : s.name.toList = t.name.toList := by
    rw [← (span_render hs).1, ← (span_render ht).1, h]
  have numbers := (span_render hs).2
  rw [h, (span_render ht).2] at numbers
  have number : s.index = t.index := by
    cases left : s.index with
    | none =>
        cases right : t.index with
        | none => rfl
        | some _ => simp [left, right] at numbers
    | some i =>
        cases right : t.index with
        | none => simp [left, right] at numbers
        | some j =>
            simp only [left, right, Option.elim_some, List.cons.injEq, true_and,
              List.append_cancel_right_eq] at numbers
            rw [Name.toDigits_inj numbers]
  cases s
  cases t
  exact congrArg₂ Segment.mk (String.toList_injective names) number

theorem dot_not_mem_render {s : Segment} (name : IsIdentifier s.name) :
    '.' ∉ s.render.toList := by
  rw [toList_render, List.mem_append]
  rintro (dot | dot)
  · exact not_mem_of_isIdentifier name (by decide) dot
  · cases hindex : s.index with
    | none => simp [hindex] at dot
    | some i =>
        simp only [hindex, Option.elim_some, List.mem_cons, List.mem_append, List.not_mem_nil,
          or_false] at dot
        rcases dot with same | digit | same
        · exact absurd same (by decide)
        · exact absurd (Nat.isDigit_of_mem_toDigits (by decide) (by decide) digit) (by decide)
        · exact absurd same (by decide)

end Segment

/-- **The parts of a written path are its written segments.** -/
theorem pathParts_renderPath {segments : List Segment} (some_segment : segments ≠ [])
    (names : ∀ s ∈ segments, IsIdentifier s.name) :
    pathParts (renderPath segments) = segments.map Segment.render := by
  have parts : ((renderPath segments).toList.splitOn '.') =
      segments.map fun s => s.render.toList := by
    rw [renderPath, String.toList_intercalate, List.map_map]
    refine List.splitOn_intercalate '.' ?_ (by simpa using some_segment)
    intro part hpart
    obtain ⟨s, hs, rfl⟩ := List.mem_map.mp hpart
    exact Segment.dot_not_mem_render (names s hs)
  rw [pathParts, parts, List.map_map]
  exact List.map_congr_left fun s _ => String.ofList_toList

/-- **A written path tells which one it is**, whatever numbers are in it. -/
theorem renderPath_inj {segments others : List Segment} (some_segment : segments ≠ [])
    (some_other : others ≠ []) (names : ∀ s ∈ segments, IsIdentifier s.name)
    (names' : ∀ s ∈ others, IsIdentifier s.name) (h : renderPath segments = renderPath others) :
    segments = others := by
  have parts := congrArg pathParts h
  rw [pathParts_renderPath some_segment names, pathParts_renderPath some_other names'] at parts
  clear h some_segment some_other
  induction segments generalizing others with
  | nil => exact (List.map_eq_nil_iff.mp parts.symm).symm
  | cons s rest ih =>
      cases others with
      | nil => cases parts
      | cons t rest' =>
          obtain ⟨same, parts⟩ := List.cons.inj parts
          obtain ⟨hs, hrest⟩ := List.forall_mem_cons.mp names
          obtain ⟨ht, hrest'⟩ := List.forall_mem_cons.mp names'
          rw [Segment.render_inj hs ht same, ih hrest hrest' parts]

end ChipMap.Target
