import ChipMap.Proofs.Name.Order

/-!
# Identifiers in order and apart

The characters of an identifier are letters, digits and underscores of ASCII.  Two facts follow from
that: **ignoring underscores is the same as keeping letters and digits**
(`IsIdentifier.looseKey_eq`), and **the order of their code points is the order of their bytes**
(`bytes_lt_bytes`).

Both matter for the nodes of a map: siblings are named by claims and then sorted.
`sortOn_renameInOrder` states once **what every such list of siblings has**, and the lemmas about
fields, registers, clusters and peripherals are instances of it.

### What is load-bearing

Claims keep keys apart that hold letters and digits only, while names are said to collide when they
agree without case and underscores.  For names with other characters the former is stronger.

That a sorted list is strictly sorted needs two things, an order and distinct names, and neither
list has both on its way: the nodes are renamed before they are sorted.  So what a node is has to be
said under every name it may get (`good`).
-/

namespace ChipMap.Name

/-- The bytes of a name, in the encoding UTF-8.  The order of names is meant as the order of their
bytes. -/
def bytes (name : String) : List UInt8 := name.toList.flatMap String.utf8EncodeChar

/-- What is left of a name when case and underscores are ignored, and nothing else. -/
def looseKey (name : String) : List Char :=
  (name.toList.filter fun c => c != '_').map Char.toLower

/-- **Names that differ even when case and underscores are ignored.**  A list has this property as a
whole, so it says in particular that no name occurs twice. -/
def Apart (names : List String) : Prop := (names.map looseKey).Nodup

/-- **A name that has an identifier has one of the right form.**  The name itself may be
anything. -/
theorem isIdentifier_of_identifier? {name id : String} (h : identifier? name = some id) :
    IsIdentifier id := by
  obtain ⟨chars, hchars, rfl⟩ := Option.map_eq_some_iff.mp h
  unfold identifierChars? at hchars
  dsimp only at hchars
  have kept : ∀ c ∈ (Text.trimChars name.toList).filterMap identifierChar?,
      isIdentifierChar c = true := by
    intro c hc
    obtain ⟨d, -, hd⟩ := List.mem_filterMap.mp hc
    exact isIdentifierChar_of_identifierChar? hd
  generalize (Text.trimChars name.toList).filterMap identifierChar? = text at hchars kept
  split at hchars
  · next alphanumeric =>
    cases text with
    | nil => cases hchars
    | cons c rest =>
        obtain rfl := Option.some.inj hchars
        -- An underscore is put in front of a digit, and of nothing else.
        refine ⟨?_, ?_, ?_⟩
        · rw [String.toList_ofList, List.all_eq_true]
          intro x hx
          split at hx
          · rcases List.mem_cons.mp hx with rfl | hx
            · decide
            · exact kept x hx
          · exact kept x hx
        · rw [String.toList_ofList]
          split
          · rw [List.any_cons, alphanumeric, Bool.or_true]
          · exact alphanumeric
        · rw [String.toList_ofList]
          split
          · rintro _ ⟨⟩
            decide
          · next digit =>
            rintro _ ⟨⟩
            exact Bool.eq_false_iff.mpr digit
  · cases hchars

/-- An underscore is neither a letter nor a digit, and nothing else in an identifier is
neither. -/
theorem isAlphanum_eq_of_isIdentifierChar {c : Char} (h : isIdentifierChar c = true) :
    c.isAlphanum = (c != '_') := by
  by_cases underscore : c = '_'
  · subst underscore
    decide
  · have other : (c == '_') = false := beq_eq_false_iff_ne.mpr underscore
    rw [isIdentifierChar, other, Bool.or_false] at h
    rw [h, bne, other]
    rfl

/-- **What is left of an identifier** without case and underscores is what its cases
depend on. -/
theorem IsIdentifier.looseKey_eq {name : String} (h : IsIdentifier name) :
    looseKey name = distinctKey name := by
  rw [looseKey, distinctKey]
  congr 1
  refine List.filter_congr fun c hc => ?_
  exact (isAlphanum_eq_of_isIdentifierChar (List.all_eq_true.mp h.1 c hc)).symm

/-- Identifiers with distinct keys differ even when case and underscores are ignored. -/
theorem apart_of_nodup {names : List String} (identifiers : ∀ n ∈ names, IsIdentifier n)
    (keys : (names.map distinctKey).Nodup) : Apart names := by
  have same : names.map looseKey = names.map distinctKey :=
    List.map_congr_left fun n hn => (identifiers n hn).looseKey_eq
  rw [Apart, same]
  exact keys

/-! ### Bytes -/

theorem val_le_of_isIdentifierChar {c : Char} (h : isIdentifierChar c = true) : c.val ≤ 127 := by
  have upper : c.isUpper = true → c.val ≤ 'Z'.val := fun h => (of_decide_eq_true h).2
  have lower : c.isLower = true → c.val ≤ 'z'.val := fun h =>
    of_decide_eq_true (Bool.and_eq_true_iff.mp h).2
  have digit : c.isDigit = true → c.toNat ≤ '9'.toNat := fun h => (Char.isDigit_iff_toNat.mp h).2
  change (((c.isUpper || c.isLower) || c.isDigit) || c == '_') = true at h
  simp only [Bool.or_eq_true, beq_iff_eq] at h
  rcases h with ((h | h) | h) | rfl
  · exact UInt32.le_trans (upper h) (by decide)
  · exact UInt32.le_trans (lower h) (by decide)
  · exact UInt32.le_iff_toNat_le.mpr (Nat.le_trans (digit h) (by decide))
  · decide

theorem encode_of_isIdentifierChar {c : Char} (h : isIdentifierChar c = true) :
    String.utf8EncodeChar c = [c.val.toUInt8] :=
  String.utf8EncodeChar_eq_singleton (Char.utf8Size_eq_one_iff.mpr (val_le_of_isIdentifierChar h))

/-- **The order of code points is the order of bytes** for characters of identifiers. -/
theorem encoded_lt_of_lt {a b : List Char} (ha : ∀ c ∈ a, isIdentifierChar c = true)
    (hb : ∀ c ∈ b, isIdentifierChar c = true) (h : a < b) :
    a.flatMap String.utf8EncodeChar < b.flatMap String.utf8EncodeChar := by
  induction a generalizing b with
  | nil =>
      cases b with
      | nil => exact absurd h (lt_irrefl _)
      | cons d b =>
          rw [List.flatMap_nil, List.flatMap_cons, encode_of_isIdentifierChar (hb d (by simp))]
          exact List.nil_lt_cons _ _
  | cons c a ih =>
      cases b with
      | nil => exact absurd h (List.not_lt_nil _)
      | cons d b =>
          rw [List.flatMap_cons, List.flatMap_cons, encode_of_isIdentifierChar (ha c (by simp)),
            encode_of_isIdentifierChar (hb d (by simp)), List.singleton_append,
            List.singleton_append]
          have ca := val_le_of_isIdentifierChar (ha c (by simp))
          have db := val_le_of_isIdentifierChar (hb d (by simp))
          rcases List.cons_lt_cons_iff.mp h with lt | ⟨rfl, lt⟩
          · -- Characters of names are encoded as one byte, which is their number.
            refine List.cons_lt_cons_iff.mpr (.inl ?_)
            rw [UInt8.lt_iff_toNat_lt, UInt32.toNat_toUInt8, UInt32.toNat_toUInt8]
            rw [UInt32.le_iff_toNat_le] at ca db
            have lt' : c.val.toNat < d.val.toNat := lt
            change c.val.toNat ≤ 127 at ca
            change d.val.toNat ≤ 127 at db
            omega
          · exact List.cons_lt_cons_iff.mpr (.inr ⟨rfl, ih (fun x hx => ha x (by simp [hx]))
              (fun x hx => hb x (by simp [hx])) lt⟩)

/-- **Identifiers in order are in the order of their bytes.**  Each of their characters is one byte,
so the lists of bytes are as long as the names. -/
theorem bytes_lt_bytes {a b : String} (ha : IsIdentifier a) (hb : IsIdentifier b) (h : a < b) :
    bytes a < bytes b :=
  encoded_lt_of_lt (List.all_eq_true.mp ha.1) (List.all_eq_true.mp hb.1)
    (String.lt_iff_toList_lt.mp h)

/-! ### Sorted nodes with distinct names -/

theorem bytes_lt_of_textLe {a b : String} (ha : IsIdentifier a) (hb : IsIdentifier b)
    (h : textLe a b = true) (other : a ≠ b) : bytes a < bytes b :=
  bytes_lt_bytes ha hb (lt_of_le_of_ne (textLe_iff.mp h) other)

/-- **Distinct identifiers behind a position**: pairs in order are in the order of their positions,
and of the bytes of the names where the positions agree.  Fields, interrupts and registers are
sorted by such pairs. -/
theorem lt_of_lexLe {α : Type} [LinearOrder α] {a b : α × String} (ha : IsIdentifier a.2)
    (hb : IsIdentifier b.2) (other : a.2 ≠ b.2) (h : lexLe textLe a b = true) :
    a.1 < b.1 ∨ a.1 = b.1 ∧ bytes a.2 < bytes b.2 := by
  rcases lexLe_iff.mp h with first | ⟨same, h⟩
  · exact .inl first
  · exact .inr ⟨same, bytes_lt_of_textLe ha hb h other⟩

/-- **Sorted nodes with distinct names are strictly sorted**: a strict relation that two
nodes in order stand in as soon as their names differ holds along the list. -/
theorem sortOn_strict {α κ : Type} {le : κ → κ → Bool} {key : α → κ} {items : List α}
    {name : α → String} {R : α → α → Prop} (h : TotalOrder le)
    (identifiers : ∀ x ∈ items, IsIdentifier (name x))
    (keys : (items.map fun x => distinctKey (name x)).Nodup)
    (strict : ∀ a b, IsIdentifier (name a) → IsIdentifier (name b) → name a ≠ name b →
      le (key a) (key b) = true → R a b) : (sortOn le key items).Pairwise R := by
  have apart : (sortOn le key items).Pairwise fun a b => name a ≠ name b := by
    have nodup := ((sortOn_perm le key items).map fun x => distinctKey (name x)).nodup_iff.mpr keys
    refine (List.pairwise_map.mp nodup).imp fun {a b} other same => other ?_
    rw [same]
  refine ((sortOn_pairwise h).and apart).imp_of_mem fun {a b} ha hb both => ?_
  exact strict a b (identifiers a (mem_sortOn.mp ha)) (identifiers b (mem_sortOn.mp hb))
    both.2 both.1

/-- Sorting keeps names apart, since it moves entries and changes none. -/
theorem apart_sortOn {α κ : Type} {le : κ → κ → Bool} {key : α → κ} {items : List α}
    {name : α → String} (identifiers : ∀ x ∈ items, IsIdentifier (name x))
    (keys : (items.map fun x => distinctKey (name x)).Nodup) :
    Apart ((sortOn le key items).map name) := by
  refine apart_of_nodup ?_ ?_
  · intro n hn
    obtain ⟨x, hx, rfl⟩ := List.mem_map.mp hn
    exact identifiers x (mem_sortOn.mp hx)
  · rw [List.map_map]
    exact ((sortOn_perm le key items).map fun x => distinctKey (name x)).nodup_iff.mpr keys

/-- **Nodes that are renamed and then sorted**: what holds of every node under every name it
may get holds of each of them, their names are apart, and they are strictly
sorted. -/
theorem sortOn_renameInOrder {α κ κ' : Type} {le : κ → κ → Bool} {key : α → κ}
    {le' : κ' → κ' → Bool} {key' : α → κ'} {name : α → String} {rename : α → String → α}
    {items : List α} {P : α → Prop} {R : α → α → Prop} (h : TotalOrder le')
    (named : ∀ a n, name (rename a n) = n) (identifier : ∀ a, P a → IsIdentifier (name a))
    (good : ∀ a ∈ items, ∀ n, IsIdentifier n → P a → P (rename a n)) (all : ∀ a ∈ items, P a)
    (strict : ∀ a b, IsIdentifier (name a) → IsIdentifier (name b) → name a ≠ name b →
      le' (key' a) (key' b) = true → R a b) :
    (∀ x ∈ sortOn le' key' (renameInOrder le key name rename items), P x) ∧
      Apart ((sortOn le' key' (renameInOrder le key name rename items)).map name) ∧
      (sortOn le' key' (renameInOrder le key name rename items)).Pairwise R := by
  have each : ∀ x ∈ renameInOrder le key name rename items, P x :=
    forall_mem_renameInOrder fun a ha n hn =>
      good a ha n (hn (identifier a (all a ha))) (all a ha)
  have identifiers : ∀ x ∈ renameInOrder le key name rename items, IsIdentifier (name x) :=
    fun x hx => identifier x (each x hx)
  have keys := @renameInOrder_nodup α κ le key name rename items named
  exact ⟨fun x hx => each x (mem_sortOn.mp hx), apart_sortOn identifiers keys,
    sortOn_strict h identifiers keys strict⟩

end ChipMap.Name
