import ChipMap.Numeral.Grouped
import ChipMap.Proofs.Name.Case

/-!
# Names that may be declared

A name is declared in snake case, in camel case or in capitals.  All three write the words of the
name in a style of their own, behind an underscore where the first word begins with a digit
(`spelled`), so they share what is said here: the key of the name is kept (`charsKey_spelled`), and
**what is written has the form of an identifier as soon as the name has a letter or a digit**
(`isIdentifier_spelled`).

A scope is a list of names that may be declared together (`Scoped`).  Names with distinct keys are
one in each of the cases (`IsCase.scoped`), and this is how the scopes of the produced source are
shown to be in order.

### What is load-bearing

No reserved word ends in a digit or an underscore, and each has a small letter.  So an escaped name,
a name with a number behind it and a constant are no reserved words, and the names of a scope may be
declared together (`Scoped`) when the keys that they are made from differ.

What else is written into the source is bare (`IsBare`): it holds characters of identifiers only,
and in particular no bracket, no quote and no line feed.  A name in any case is bare even if it has
no letter and no digit to be made from.
-/

namespace ChipMap.Name

/-! ### Styles of words

The three cases differ in what stands between words and in what becomes of a word.  Both are
parameters here, and what is asked of them is little. -/

/-- A style changes the case of letters at most.  Only words of letters and digits are written in a
style. -/
structure IsStyle (style : List Char → List Char) : Prop where
  alphanum : ∀ word, (∀ c ∈ word, c.isAlphanum = true) → ∀ c ∈ style word, c.isAlphanum = true
  key : ∀ word, (∀ c ∈ word, c.isAlphanum = true) →
    (style word).map Char.toLower = word.map Char.toLower

theorem isStyle_map {change : Char → Char}
    (h : ∀ c : Char, c.isAlphanum = true →
      (change c).isAlphanum = true ∧ (change c).toLower = c.toLower) : IsStyle (List.map change) where
  alphanum word letters c hc := by
    obtain ⟨d, hd, rfl⟩ := List.mem_map.mp hc
    exact (h d (letters d hd)).1
  key word letters := by
    rw [List.map_map]
    exact List.map_congr_left fun c hc => (h c (letters c hc)).2

theorem isStyle_lower : IsStyle (List.map Char.toLower) := isStyle_map key_toLower

theorem isStyle_upper : IsStyle (List.map Char.toUpper) := isStyle_map key_toUpper

theorem isStyle_capitalize : IsStyle capitalize where
  alphanum word h c hc := by
    cases word with
    | nil => cases hc
    | cons d rest =>
        rcases List.mem_cons.mp hc with rfl | hc
        · exact (key_toUpper d (h d List.mem_cons_self)).1
        · exact isStyle_lower.alphanum rest (fun e he => h e (List.mem_cons_of_mem _ he)) c hc
  key word h := by
    cases word with
    | nil => rfl
    | cons d rest =>
        rw [capitalize, List.map_cons, List.map_cons, (key_toUpper d (h d List.mem_cons_self)).2,
          isStyle_lower.key rest fun e he => h e (List.mem_cons_of_mem _ he)]

/-- The words of a name in some style, with `between` between neighbours.  Escaping is not part of
it, for capitals need none. -/
def spelled (between : List Char) (style : List Char → List Char) (name : String) : List Char :=
  caseLead (caseWords name) ++ List.intercalate between ((caseWords name).map style)

theorem snakeCase_eq (name : String) :
    snakeCase name =
      escapeReserved (String.ofList (spelled ['_'] (List.map Char.toLower) name)) := rfl

theorem constantCase_eq (name : String) :
    constantCase name = String.ofList (spelled ['_'] (List.map Char.toUpper) name) := rfl

theorem intercalate_nothing (words : List (List Char)) :
    List.intercalate [] words = words.flatten := by
  induction words with
  | nil => rfl
  | cons word rest ih =>
      cases rest with
      | nil => simp
      | cons next rest => rw [List.intercalate_cons_cons, ih, List.append_nil, ← List.flatten_cons]

theorem camelCase_eq (name : String) :
    camelCase name = escapeReserved (String.ofList (spelled [] capitalize name)) := by
  rw [spelled, intercalate_nothing, ← List.flatMap_def, camelCase]

/-! ### The words of a name -/

theorem isAlphanum_of_mem_caseWords {name : String} {word : List Char}
    (hword : word ∈ caseWords name) : ∀ c ∈ word, c.isAlphanum = true := by
  intro c hc
  have member := List.mem_flatten.mpr ⟨word, hword, hc⟩
  rw [flatten_caseWords] at member
  exact (List.mem_filter.mp member).2

theorem ne_nil_of_mem_humps {cs hump : List Char} (h : hump ∈ humps cs) : hump ≠ [] := by
  fun_induction humps cs with
  | case1 => cases h
  | case2 c => simp_all
  | case3 c d rest cut ih =>
      rcases List.mem_cons.mp h with rfl | h
      · exact List.cons_ne_nil _ _
      · exact ih h
  | case4 c d rest joined word words found ih =>
      rcases List.mem_cons.mp h with rfl | h
      · exact List.cons_ne_nil _ _
      · exact ih (found ▸ List.mem_cons_of_mem _ h)
  | case5 c d rest joined found ih => simp_all

/-- **The first word of a name begins with a letter or a digit**, and there is one as soon as the
name has a letter or a digit. -/
theorem exists_caseWords {name : String} (h : name.toList.any Char.isAlphanum = true) :
    ∃ c rest words, caseWords name = (c :: rest) :: words := by
  obtain ⟨letter, hletter, alphanum⟩ := List.any_eq_true.mp h
  cases found : caseWords name with
  | nil =>
      have none := flatten_caseWords name
      rw [found, List.flatten_nil] at none
      exact absurd (List.mem_filter.mpr ⟨hletter, alphanum⟩) (none ▸ List.not_mem_nil)
  | cons word words =>
      have member : word ∈ caseWords name := found ▸ List.mem_cons_self
      obtain ⟨piece, -, hump⟩ := List.mem_flatMap.mp member
      obtain ⟨c, rest, rfl⟩ := List.exists_cons_of_ne_nil (ne_nil_of_mem_humps hump)
      exact ⟨c, rest, words, rfl⟩

/-! ### What is spelled -/

theorem eq_of_mem_caseLead {words : List (List Char)} {c : Char} (h : c ∈ caseLead words) :
    c = '_' := by
  unfold caseLead at h
  split at h
  · split at h
    · exact List.mem_singleton.mp h
    · cases h
  · cases h

theorem charsKey_of_isAlphanum {cs : List Char} (h : ∀ c ∈ cs, c.isAlphanum = true) :
    charsKey cs = cs.map Char.toLower := by
  rw [charsKey, List.filter_eq_self.mpr h]

theorem charsKey_intercalate {between : List Char} (h : charsKey between = [])
    (words : List (List Char)) :
    charsKey (List.intercalate between words) = words.flatMap charsKey := by
  induction words with
  | nil => rfl
  | cons word rest ih =>
      cases rest with
      | nil => simp
      | cons next rest =>
          rw [List.intercalate_cons_cons, charsKey_append, charsKey_append, h, List.append_nil, ih,
            ← List.flatMap_cons]

theorem mem_of_mem_intercalate {between : List Char} {words : List (List Char)} {c : Char}
    (h : c ∈ List.intercalate between words) : c ∈ between ∨ ∃ word ∈ words, c ∈ word := by
  induction words with
  | nil => cases h
  | cons word rest ih =>
      cases rest with
      | nil => exact .inr ⟨word, List.mem_cons_self, by simpa using h⟩
      | cons next rest =>
          rw [List.intercalate_cons_cons, List.append_assoc, List.mem_append, List.mem_append] at h
          rcases h with h | h | h
          · exact .inr ⟨word, List.mem_cons_self, h⟩
          · exact .inl h
          · rcases ih h with h | ⟨other, hother, h⟩
            · exact .inl h
            · exact .inr ⟨other, List.mem_cons_of_mem _ hother, h⟩

theorem isDigit_toLower : ∀ c : Char, c.isAlphanum = true → c.toLower.isDigit = c.isDigit :=
  forall_isAlphanum (by decide +kernel)

section Spelled

variable {between : List Char} {style : List Char → List Char}

/-- **The key of a name is kept** by every style, if what stands between the words has no key. -/
theorem charsKey_spelled (isStyle : IsStyle style) (h : charsKey between = []) (name : String) :
    charsKey (spelled between style name) = distinctKey name := by
  have letters := @isAlphanum_of_mem_caseWords name
  calc charsKey (spelled between style name)
      = ((caseWords name).map style).flatMap charsKey := by
        rw [spelled, charsKey_append, charsKey_caseLead, List.nil_append, charsKey_intercalate h]
    _ = (caseWords name).flatMap (List.map Char.toLower) := by
        rw [List.flatMap_map]
        refine List.flatMap_congr fun word hword => ?_
        rw [charsKey_of_isAlphanum (isStyle.alphanum word (letters hword)),
          isStyle.key word (letters hword)]
    _ = distinctKey name := by
        rw [List.flatMap_def, ← List.map_flatten, flatten_caseWords, distinctKey]

/-- **What begins a spelled name**: a letter, or an underscore and a digit.  Nothing else begins
with an underscore. -/
theorem spelled_head (isStyle : IsStyle style) {name : String}
    (h : name.toList.any Char.isAlphanum = true) :
    ∃ c rest, c.isAlphanum = true ∧
      (spelled between style name = c :: rest ∧ c.isDigit = false ∨
        spelled between style name = '_' :: c :: rest ∧ c.isDigit = true) := by
  obtain ⟨c, rest, words, found⟩ := exists_caseWords h
  have letters : ∀ d ∈ c :: rest, d.isAlphanum = true :=
    isAlphanum_of_mem_caseWords (found ▸ List.mem_cons_self)
  have styled := isStyle.alphanum _ letters
  have key := isStyle.key _ letters
  cases first : style (c :: rest) with
  | nil =>
      rw [first] at key
      cases key
  | cons d others =>
      rw [first, List.map_cons, List.map_cons] at key
      have alphanum : d.isAlphanum = true := styled d (first ▸ List.mem_cons_self)
      have digit : d.isDigit = c.isDigit := by
        rw [← isDigit_toLower d alphanum, ← isDigit_toLower c (letters c List.mem_cons_self),
          (List.cons.inj key).1]
      -- What stands between words does not come before the first one.
      have begins : ∃ tail, List.intercalate between ((caseWords name).map style) = d :: tail := by
        rw [found, List.map_cons, first]
        cases words with
        | nil => exact ⟨others, by simp⟩
        | cons next words =>
            rw [List.map_cons, List.intercalate_cons_cons]
            exact ⟨_, rfl⟩
      obtain ⟨tail, begins⟩ := begins
      refine ⟨d, tail, alphanum, ?_⟩
      rw [spelled, begins, found, caseLead, digit]
      cases c.isDigit with
      | false => exact .inl ⟨rfl, rfl⟩
      | true => exact .inr ⟨rfl, rfl⟩

/-- A spelled name holds characters of identifiers only.  This needs no letter in the name. -/
theorem isIdentifierChar_of_mem_spelled (isStyle : IsStyle style)
    (chars : between.all isIdentifierChar = true) {name : String} {c : Char}
    (h : c ∈ spelled between style name) : isIdentifierChar c = true := by
  rcases List.mem_append.mp h with lead | inside
  · rw [eq_of_mem_caseLead lead]
    rfl
  · rcases mem_of_mem_intercalate inside with inside | ⟨word, hword, inside⟩
    · exact List.all_eq_true.mp chars c inside
    · obtain ⟨own, hown, rfl⟩ := List.mem_map.mp hword
      have letter := isStyle.alphanum own (isAlphanum_of_mem_caseWords hown) c inside
      rw [isIdentifierChar, letter, Bool.true_or]

/-- **A spelled name has the form of an identifier** when the name has a letter or a digit. -/
theorem isIdentifier_spelled (isStyle : IsStyle style)
    (chars : between.all isIdentifierChar = true) {name : String}
    (alphanum : name.toList.any Char.isAlphanum = true) :
    IsIdentifier (String.ofList (spelled between style name)) := by
  refine ⟨?_, ?_, ?_⟩
  · rw [String.toList_ofList, List.all_eq_true]
    exact fun c hc => isIdentifierChar_of_mem_spelled isStyle chars hc
  · obtain ⟨c, rest, hc, head | head⟩ := @spelled_head between style isStyle name alphanum
    · rw [String.toList_ofList, head.1, List.any_cons, hc, Bool.true_or]
    · rw [String.toList_ofList, head.1, List.any_cons, List.any_cons, hc, Bool.true_or,
        Bool.or_true]
  · obtain ⟨c, rest, -, head | head⟩ := @spelled_head between style isStyle name alphanum
    · rw [String.toList_ofList, head.1]
      rintro _ ⟨⟩
      exact head.2
    · rw [String.toList_ofList, head.1]
      rintro _ ⟨⟩
      rfl

end Spelled

/-! ### Reserved words

The list of reserved words is looked at once, for the two facts of `reservedWord_chars`.  Whoever
adds a word to it has to check these for the word, and nothing else. -/

/-- **A name that may be declared**: it has the form of an identifier and is no reserved word. -/
def IsDeclarable (name : String) : Prop := IsIdentifier name ∧ name ∉ reservedWords

/-- Every reserved word has a small letter, and its last character is no digit and no underscore. -/
theorem reservedWord_chars : ∀ word ∈ reservedWords,
    word.toList.any Char.isLower = true ∧
      ∀ c ∈ word.toList.getLast?, c.isDigit = false ∧ c ≠ '_' := by
  -- As one truth value, so that the check runs over the words only.
  have checked : (reservedWords.all fun word => word.toList.any Char.isLower &&
      word.toList.getLast?.all fun c => !c.isDigit && c != '_') = true := by decide +kernel
  intro word hword
  obtain ⟨small, last⟩ := Bool.and_eq_true_iff.mp (List.all_eq_true.mp checked word hword)
  refine ⟨small, fun c hc => ?_⟩
  have last := (Option.all_eq_true _ _).mp last c hc
  simpa using last

/-- A name that ends in a digit or an underscore is no reserved word. -/
theorem not_reserved_of_last {name : String} {c : Char} (h : name.toList.getLast? = some c)
    (last : c.isDigit = true ∨ c = '_') : name ∉ reservedWords := by
  intro reserved
  obtain ⟨digit, underscore⟩ := (reservedWord_chars name reserved).2 c h
  rcases last with last | last
  · rw [last] at digit
    cases digit
  · exact underscore last

/-- A name without a small letter is no reserved word. -/
theorem not_reserved_of_capitals {name : String} (h : name.toList.any Char.isLower = false) :
    name ∉ reservedWords := by
  intro reserved
  rw [(reservedWord_chars name reserved).1] at h
  cases h

/-- **An escaped identifier may be declared.**  Either it is no reserved word, or it ends in an
underscore. -/
theorem IsIdentifier.escapeReserved {name : String} (h : IsIdentifier name) :
    IsDeclarable (escapeReserved name) := by
  unfold Name.escapeReserved
  split
  · refine ⟨h.append rfl, not_reserved_of_last (c := '_') ?_ (.inr rfl)⟩
    rw [String.toList_append]
    exact List.getLast?_concat
  · next other => exact ⟨h, fun reserved => other (List.contains_iff_mem.mpr reserved)⟩

/-- **An identifier with a number behind it may be declared.** -/
theorem IsIdentifier.append_number {name : String} (h : IsIdentifier name) (n : Nat) :
    IsDeclarable (name ++ toString n) := by
  have some : (toString n).toList ≠ [] := by
    rw [Nat.toString_eq_repr, Nat.toList_repr]
    exact Nat.toDigits_ne_nil
  refine ⟨h.append_toString n, not_reserved_of_last (c := (toString n).toList.getLast some) ?_
    (.inl (isDigit_of_mem_toString (List.getLast_mem some)))⟩
  rw [String.toList_append, List.getLast?_append_of_ne_nil _ some, List.getLast?_eq_some_getLast]

theorem IsDeclarable.choose {name : String} (h : IsDeclarable name) (s : Claimed) :
    IsDeclarable (s.choose name) := by
  rcases (s.choose_spec name).1 with same | ⟨n, same⟩
  · rw [same]
    exact h
  · rw [same, Claimed.numbered]
    exact (h.1.append rfl).append_number n

theorem any_isAlphanum_append {name : String} (h : name.toList.any Char.isAlphanum = true)
    (behind : String) : (name ++ behind).toList.any Char.isAlphanum = true := by
  rw [String.toList_append, List.any_append, h, Bool.true_or]

theorem any_isAlphanum_claim {name : String} (h : name.toList.any Char.isAlphanum = true)
    (s : Claimed) : (s.claim name).1.toList.any Char.isAlphanum = true := by
  rw [Claimed.claim]
  dsimp only
  rcases (s.choose_spec name).1 with same | ⟨n, same⟩
  · rw [same]
    exact h
  · rw [same, Claimed.numbered]
    exact any_isAlphanum_append (any_isAlphanum_append h "_") _

/-! ### Underscores in front

A reservation is named by an underscore, a word and a number.  No member of a struct has such a
name, since behind an underscore at the front of a spelled name stands a digit. -/

/-- Behind an underscore at the front of a name stands a digit. -/
def LeadsDigit (name : String) : Prop :=
  ∀ c rest, name.toList = '_' :: c :: rest → c.isDigit = true

theorem LeadsDigit.append {name : String} (h : LeadsDigit name) (identifier : IsIdentifier name)
    (behind : String) : LeadsDigit (name ++ behind) := by
  intro c rest front
  rw [String.toList_append] at front
  obtain ⟨-, alphanum, -⟩ := identifier
  cases chars : name.toList with
  | nil =>
      rw [chars] at alphanum
      cases alphanum
  | cons d others =>
      rw [chars] at front alphanum
      cases others with
      | nil =>
          rw [(List.cons.inj front).1] at alphanum
          cases alphanum
      | cons e others =>
          rw [← (List.cons.inj (List.cons.inj front).2).1]
          exact h e others (chars.trans (by rw [(List.cons.inj front).1]))

theorem LeadsDigit.choose {name : String} (h : LeadsDigit name) (identifier : IsIdentifier name)
    (s : Claimed) : LeadsDigit (s.choose name) := by
  rcases (s.choose_spec name).1 with same | ⟨n, same⟩
  · rw [same]
    exact h
  · rw [same, Claimed.numbered]
    exact (h.append identifier "_").append (identifier.append rfl) _

theorem snakeCase_leadsDigit {name : String} (h : name.toList.any Char.isAlphanum = true) :
    LeadsDigit (snakeCase name) := by
  have identifier := @isIdentifier_spelled ['_'] _ isStyle_lower (by decide) name h
  have leads : LeadsDigit (String.ofList (spelled ['_'] (List.map Char.toLower) name)) := by
    intro c rest front
    rw [String.toList_ofList] at front
    obtain ⟨d, others, alphanum, ⟨spelled, -⟩ | ⟨spelled, digit⟩⟩ :=
      @spelled_head ['_'] _ isStyle_lower name h
    · rw [spelled] at front
      rw [(List.cons.inj front).1] at alphanum
      cases alphanum
    · rw [spelled] at front
      rw [← (List.cons.inj (List.cons.inj front).2).1]
      exact digit
  rw [snakeCase_eq, Name.escapeReserved]
  split
  · exact leads.append identifier "_"
  · exact leads

/-! ### The three cases -/

/-- **A name in some case is an identifier that may be declared**, and it keeps the key.  Only the
first part needs a letter or a digit in the name. -/
structure IsCase (change : String → String) : Prop where
  declarable : ∀ {name : String}, name.toList.any Char.isAlphanum = true →
    IsDeclarable (change name)
  key : ∀ name, distinctKey (change name) = distinctKey name

theorem isCase_snakeCase : IsCase snakeCase where
  declarable h := by
    rw [snakeCase_eq]
    exact (isIdentifier_spelled isStyle_lower (by decide) h).escapeReserved
  key name := by
    rw [snakeCase_eq, distinctKey_escapeReserved, distinctKey, String.toList_ofList]
    exact charsKey_spelled isStyle_lower (by decide) name

theorem isCase_camelCase : IsCase camelCase where
  declarable h := by
    rw [camelCase_eq]
    exact (isIdentifier_spelled isStyle_capitalize (by decide) h).escapeReserved
  key name := by
    rw [camelCase_eq, distinctKey_escapeReserved, distinctKey, String.toList_ofList]
    exact charsKey_spelled isStyle_capitalize rfl name

/-- A constant has no small letter. -/
theorem constantCase_capitals (name : String) :
    (constantCase name).toList.any Char.isLower = false := by
  have upper : ∀ c : Char, c.isAlphanum = true → c.toUpper.isLower = false :=
    forall_isAlphanum (by decide +kernel)
  rw [constantCase_eq, String.toList_ofList, List.any_eq_false]
  intro c hc
  rcases List.mem_append.mp hc with lead | inside
  · rw [eq_of_mem_caseLead lead]
    decide
  · rcases mem_of_mem_intercalate inside with inside | ⟨word, hword, inside⟩
    · rw [List.mem_singleton.mp inside]
      decide
    · obtain ⟨own, hown, rfl⟩ := List.mem_map.mp hword
      obtain ⟨d, hd, rfl⟩ := List.mem_map.mp inside
      exact Bool.eq_false_iff.mp (upper d (isAlphanum_of_mem_caseWords hown d hd))

theorem isCase_constantCase : IsCase constantCase where
  declarable h := by
    refine ⟨?_, not_reserved_of_capitals (constantCase_capitals _)⟩
    rw [constantCase_eq]
    exact isIdentifier_spelled isStyle_upper (by decide) h
  key name := by
    rw [constantCase_eq, distinctKey, String.toList_ofList]
    exact charsKey_spelled isStyle_upper (by decide) name

/-- A constant with capitals behind it may be declared.  The constants of addresses and of
interrupts have such ends. -/
theorem constantCase_append_declarable {name behind : String}
    (h : name.toList.any Char.isAlphanum = true)
    (chars : behind.toList.all isIdentifierChar = true)
    (capitals : behind.toList.any Char.isLower = false) :
    IsDeclarable (constantCase name ++ behind) := by
  refine ⟨(isCase_constantCase.declarable h).1.append chars, not_reserved_of_capitals ?_⟩
  rw [String.toList_append, List.any_append, constantCase_capitals, capitals, Bool.false_or]

/-! ### Scopes -/

/-- **The names of a scope**: each may be declared, and none is declared twice.  Whether the
declarations refer to each other is another matter. -/
structure Scoped (names : List String) : Prop where
  declarable : ∀ name ∈ names, IsDeclarable name
  distinct : names.Nodup

/-- Identifiers that are apart have distinct keys, since an identifier has nothing but letters,
digits and underscores. -/
theorem Apart.keys {names : List String} (h : Apart names)
    (identifiers : ∀ n ∈ names, IsIdentifier n) : (names.map distinctKey).Nodup := by
  have same : names.map looseKey = names.map distinctKey :=
    List.map_congr_left fun n hn => (identifiers n hn).looseKey_eq
  rw [← same]
  exact h

/-- **Names with distinct keys are a scope in every case.**  Distinct keys are distinct names, as
each case keeps the key. -/
theorem IsCase.scoped {change : String → String} (isCase : IsCase change) {names : List String}
    (letters : ∀ n ∈ names, n.toList.any Char.isAlphanum = true)
    (keys : (names.map distinctKey).Nodup) : Scoped (names.map change) where
  declarable := by
    intro n hn
    obtain ⟨wanted, hwanted, rfl⟩ := List.mem_map.mp hn
    exact isCase.declarable (letters wanted hwanted)
  distinct := by
    refine List.Nodup.of_map distinctKey ?_
    rw [List.map_map]
    exact (List.map_congr_left fun n _ => isCase.key n).symm ▸ keys

/-! ### Bare names -/

/-- **A bare name** holds letters, digits and underscores of ASCII only; it may hold none.  Unlike
an identifier it may begin with a digit. -/
def IsBare (name : String) : Prop := ∀ c ∈ name.toList, isIdentifierChar c = true

instance (name : String) : Decidable (IsBare name) :=
  List.decidableBAll (fun c => isIdentifierChar c = true) name.toList

theorem IsBare.append {a b : String} (h : IsBare a) (h' : IsBare b) : IsBare (a ++ b) := by
  intro c hc
  rw [String.toList_append] at hc
  exact (List.mem_append.mp hc).elim (h c) (h' c)

theorem isBare_toString (n : Nat) : IsBare (toString n) := by
  intro c hc
  rw [isIdentifierChar, Char.isAlphanum, isDigit_of_mem_toString hc, Bool.or_true, Bool.true_or]

theorem isBare_hexPlain (n : Nat) : IsBare (Numeral.hexPlain n) := by
  refine IsBare.append (by decide) fun c hc => ?_
  rw [String.toList_ofList] at hc
  rw [isIdentifierChar, Numeral.isAlphanum_of_mem_hexDigits hc, Bool.true_or]

theorem isBare_hexConstant (n : Nat) : IsBare (Numeral.hexConstant n) := by
  unfold Numeral.hexConstant
  split
  · exact isBare_toString n
  · refine IsBare.append (by decide) fun c hc => ?_
    rw [String.toList_ofList] at hc
    rcases Numeral.mem_of_mem_groupReversed (List.mem_reverse.mp hc) with digit | rfl
    · rw [isIdentifierChar, Numeral.isAlphanum_of_mem_hexDigits (List.mem_reverse.mp digit),
        Bool.true_or]
    · rfl

/-- A claim of a bare name gives a bare name out. -/
theorem IsBare.choose {name : String} (h : IsBare name) (s : Claimed) : IsBare (s.choose name) := by
  rcases (s.choose_spec name).1 with same | ⟨n, same⟩
  · rw [same]
    exact h
  · rw [same]
    exact (h.append (by decide : IsBare "_")).append (isBare_toString n)

theorem IsBare.escapeReserved {name : String} (h : IsBare name) : IsBare (escapeReserved name) := by
  unfold Name.escapeReserved
  split
  · exact h.append (by decide)
  · exact h

/-- What is spelled is bare, whatever the name holds.  Characters of other kinds are where a name is
cut. -/
theorem isBare_spelled {between : List Char} {style : List Char → List Char}
    (isStyle : IsStyle style) (chars : between.all isIdentifierChar = true) (name : String) :
    IsBare (String.ofList (spelled between style name)) := by
  intro c hc
  rw [String.toList_ofList] at hc
  exact isIdentifierChar_of_mem_spelled isStyle chars hc

/-- **A name in any case is bare**, whatever the name holds. -/
theorem isBare_snakeCase (name : String) : IsBare (snakeCase name) := by
  rw [snakeCase_eq]
  exact (isBare_spelled isStyle_lower (by decide) name).escapeReserved

theorem isBare_camelCase (name : String) : IsBare (camelCase name) := by
  rw [camelCase_eq]
  exact (isBare_spelled isStyle_capitalize (by decide) name).escapeReserved

theorem isBare_constantCase (name : String) : IsBare (constantCase name) := by
  rw [constantCase_eq]
  exact isBare_spelled isStyle_upper (by decide) name

end ChipMap.Name
