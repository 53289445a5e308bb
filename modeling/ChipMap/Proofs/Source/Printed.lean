import ChipMap.Proofs.Source.Closed
import ChipMap.Proofs.Source.Indentation

/-!
# Declarations and the text of files

The theorems about scopes, references and variants speak of a `ModuleDecl`: the names, types and
places that a module is printed from.  This module goes the last step to the text.  **Every name
that a module declares, and every name that one of its members refers to, stands as a word of its
own on a line of the text of an exported file** (`Exports.printed`), and a module prints nothing
else: each of its lines is a comment, a frame around declarations, or the line of one declaration
(`ModuleDecl.cases_of_mem_items`).

* `HasWord` — a name in a text that no further character of a name touches.
* `ModuleDecl.Introduces` — the declarations of a module, each with the depth and the text of its
  line.
* `ModuleDecl.Refers` — the names that members take their types from, with the lines of the members.
* `Frame` — the lines that open and close levels, and those that every module has.
* `SourceFile.Shows` — a line of the text of a file.

### Why lines and not tokens

What is declared is told from a whole line and not from a word in it, for a remark in a comment may
name anything.  So `Introduces` fixes the text of the line to the last character, and that a name is
a word of it is a second fact (`ModuleDecl.Introduces.hasWord`), which holds of any name: the
characters around it belong to the fixed part of the line and are none of a name.

### What is load-bearing

The two directions are proved along the printer, level by level, and the depth is counted on the
way: a bitfield type is two levels inside its module and a variant four.  From lines to text nothing
is assumed of the rest of the file.  A vendor may hold a line feed and then fills several lines of
text, but the line of a declaration holds none (`items_oneLine`), and one such line stays a line of
the text whatever stands around it (`chars_mem_splitLines`).
-/

namespace ChipMap.Source

open Map (Device Peripheral)
open Name (isIdentifierChar isBare_snakeCase isBare_constantCase)

/-! ### Words of a text -/

/-- A character that parts words: it is none of a name. -/
def parts (c : Char) : Bool := !isIdentifierChar c

/-- **A text stands in another one as a word** or as several of them: no character of a name touches
it from outside, so a name in it is not a piece of a longer one. -/
def HasWord (word text : String) : Prop :=
  ∃ front behind : String, text = front ++ word ++ behind ∧
    front.toList.getLast?.all parts = true ∧ behind.toList.head?.all parts = true

theorem hasWord {front behind : String} (word : String)
    (before : front.toList.getLast?.all parts = true)
    (after : behind.toList.head?.all parts = true) : HasWord word (front ++ word ++ behind) :=
  ⟨front, behind, rfl, before, after⟩

/-- **A word of a word is a word**: where the outer text begins or ends, what stands around it
parts. -/
theorem HasWord.trans {word middle text : String} (h : HasWord word middle)
    (h' : HasWord middle text) : HasWord word text := by
  obtain ⟨front, behind, rfl, before, after⟩ := h
  obtain ⟨front', behind', rfl, before', after'⟩ := h'
  refine ⟨front' ++ front, behind ++ behind', by simp only [String.append_assoc], ?_, ?_⟩
  · rw [String.toList_append, List.getLast?_append]
    cases final : front.toList.getLast? with
    | none => exact before'
    | some c => simpa [final] using before
  · rw [String.toList_append, List.head?_append]
    cases first : behind.toList.head? with
    | none => exact after'
    | some c => simpa [first] using after

theorem ends_append (front : String) {last : String}
    (h : last.toList.getLast?.any parts = true) :
    (front ++ last).toList.getLast?.all parts = true := by
  rw [String.toList_append, List.getLast?_append]
  cases final : last.toList.getLast? with
  | none => simp [final] at h
  | some c => simpa [final] using h

theorem begins_append {first : String} (h : first.toList.head?.any parts = true) (rest : String) :
    (first ++ rest).toList.head?.all parts = true := by
  rw [String.toList_append, List.head?_append]
  cases head : first.toList.head? with
  | none => simp [head] at h
  | some c => simpa [head] using h

/-! ### Declarations of a module -/

/-- The line of a variant behind its comments. -/
def Variant.text (v : Variant) : String :=
  v.name ++ " = " ++ Numeral.hexConstant v.value.toNat ++ ","

/-- The line of a field behind its comments.  The list of its variants is open if there are any. -/
def FieldDecl.text (f : FieldDecl) : String :=
  f.name ++ " OFFSET(" ++ toString f.bits.start ++ ") NUMBITS(" ++ toString f.bits.width ++ ")" ++
    if f.variants.isEmpty then " []," else " ["

/-- **What a module declares**: how deep the line of the declaration is inside the module, the name
that it declares, and its text. -/
inductive ModuleDecl.Introduces (m : ModuleDecl) : Nat → String → String → Prop
  | constant {c : Constant} : c ∈ m.address :: m.interrupts → Introduces m 0 c.name
      ("pub " ++ "const " ++ c.name ++ ": " ++ c.typeName ++ " = " ++ c.value ++ ";")
  | type {g : BitfieldGroup} {t : BitfieldDecl} : g ∈ m.groups → t ∈ g.types →
      Introduces m 2 t.name ("pub " ++ t.name ++ " [")
  | field {g : BitfieldGroup} {t : BitfieldDecl} {f : FieldDecl} : g ∈ m.groups → t ∈ g.types →
      f ∈ t.fields → Introduces m 3 f.name f.text
  | variant {g : BitfieldGroup} {t : BitfieldDecl} {f : FieldDecl} {v : Variant} : g ∈ m.groups →
      t ∈ g.types → f ∈ t.fields → v ∈ f.variants → Introduces m 4 v.name v.text
  | struct {s : StructDecl} : s ∈ m.structs → Introduces m 2 s.name ("pub " ++ s.name ++ " \x7b")
  | entry {s : StructDecl} {e : Entry} {name : String} : s ∈ m.structs → e ∈ s.entries →
      e.declared? = some name → Introduces m 3 name e.text

/-- **What the members of a module refer to**: the bitfield type of a register and the struct of a
cluster, each on the line of the member. -/
inductive ModuleDecl.Refers (m : ModuleDecl) : String → Slot → Prop
  | bitfield {d : StructDecl} {s : Slot} {readable writable : Bool} {storage : Storage}
    {name : String} {count : Option Nat} : d ∈ m.structs → .field s ∈ d.entries →
      s.kind = .register readable writable storage (some name) count → Refers m name s
  | struct {d : StructDecl} {s : Slot} {name : String} {count : Option Nat} : d ∈ m.structs →
      .field s ∈ d.entries → s.kind = .block name count → Refers m name s

/-- The name that an entry declares is a word of its text. -/
theorem Entry.hasWord {e : Entry} {name : String} (h : e.declared? = some name) :
    HasWord name e.text := by
  cases e with
  | field s =>
      obtain rfl := Option.some.inj h
      refine ⟨"(" ++ Numeral.hexPlain s.offset ++ " => pub ", ": " ++ (s.kind.typeName ++ "),"), ?_,
        ends_append _ (by decide), begins_append (by decide) _⟩
      simp only [Entry.text, String.append_assoc]
  | reserved offset number =>
      obtain rfl := Option.some.inj h
      refine ⟨"(" ++ Numeral.hexPlain offset ++ " => ", "),", ?_, ends_append _ (by decide),
        by decide⟩
      have fixed : " => _reserved" = " => " ++ "_reserved" := by decide
      rw [Entry.text, reservation, fixed]
      simp only [String.append_assoc]
  | remark s => cases h

/-- **A declared name is a word of the line that declares it**, whatever the name is. -/
theorem ModuleDecl.Introduces.hasWord {m : ModuleDecl} {depth : Nat} {name text : String}
    (h : m.Introduces depth name text) : HasWord name text := by
  cases h with
  | @constant c _ =>
      refine ⟨"pub const ", ": " ++ (c.typeName ++ (" = " ++ (c.value ++ ";"))), ?_, by decide,
        begins_append (by decide) _⟩
      have fixed : "pub const " = "pub " ++ "const " := by decide
      simp only [fixed, String.append_assoc]
  | type _ _ => exact Source.hasWord _ (by decide) (by decide)
  | @field _ _ f _ _ _ =>
      refine ⟨"", " OFFSET(" ++ (toString f.bits.start ++ (") NUMBITS(" ++ (toString f.bits.width ++
        (")" ++ if f.variants.isEmpty then " []," else " [")))), ?_, by decide,
        begins_append (by decide) _⟩
      simp only [FieldDecl.text, String.empty_append, String.append_assoc]
  | @variant _ _ _ v _ _ _ _ =>
      refine ⟨"", " = " ++ (Numeral.hexConstant v.value.toNat ++ ","), ?_, by decide,
        begins_append (by decide) _⟩
      simp only [Variant.text, String.empty_append, String.append_assoc]
  | struct _ => exact Source.hasWord _ (by decide) (by decide)
  | entry _ _ declared => exact Entry.hasWord declared

/-- **What a member refers to is a word of its type**: a bitfield type behind the path of the module
of bitfield types, and a struct alone or as the element of an array. -/
theorem ModuleDecl.Refers.hasWord {m : ModuleDecl} {name : String} {s : Slot}
    (h : m.Refers name s) : HasWord name (Entry.field s).text := by
  have type : HasWord s.kind.typeName (Entry.field s).text :=
    Source.hasWord _ (ends_append _ (by decide)) (by decide)
  refine HasWord.trans ?_ type
  -- An array has its element between brackets.
  have element : HasWord s.kind.elementType s.kind.typeName := by
    unfold SlotKind.typeName
    cases s.kind.count with
    | none => exact ⟨"", "", by simp, rfl, rfl⟩
    | some n =>
        refine ⟨"[", "; " ++ (toString n ++ "]"), ?_, by decide, begins_append (by decide) _⟩
        simp only [String.append_assoc]
  refine HasWord.trans ?_ element
  cases h with
  | @bitfield _ _ readable writable storage _ count _ _ kind =>
      rw [kind]
      refine ⟨registerPath ++ accessType readable writable ++ "<" ++ storage.typeName ++
        ", super::bits::", "::Register" ++ ">", ?_, ends_append _ (by decide), by decide⟩
      simp only [SlotKind.elementType, String.append_assoc]
  | struct _ _ kind =>
      rw [kind]
      exact ⟨"", "", by simp [SlotKind.elementType], rfl, rfl⟩

/-! ### Lines of a module -/

/-- **Lines between brackets**: what is inside is one level deeper. -/
theorem mem_enclosed {opening closing : String} {inner : List Line} {l : Line} :
    l ∈ enclosed opening closing inner ↔
      l = line opening ∨ (∃ x ∈ inner, l = ⟨x.depth + 1, x.text⟩) ∨ l = line closing := by
  simp only [enclosed, nested, List.mem_append, List.mem_cons, List.mem_map, List.not_mem_nil,
    or_false, or_assoc, eq_comm]

theorem mem_enclosed_of_mem {opening closing : String} {inner : List Line} {l : Line}
    (h : l ∈ inner) : ⟨l.depth + 1, l.text⟩ ∈ enclosed opening closing inner :=
  mem_enclosed.mpr (.inr (.inl ⟨l, h, rfl⟩))

/-- The line of a field, and those of its variants one level deeper. -/
theorem FieldDecl.mem_lines (f : FieldDecl) :
    line f.text ∈ f.lines ∧ ∀ v ∈ f.variants, ⟨1, v.text⟩ ∈ f.lines := by
  unfold FieldDecl.lines FieldDecl.text
  cases f.variants with
  | nil =>
      refine ⟨?_, fun v hv => nomatch hv⟩
      exact List.mem_append_right _ (List.mem_cons_of_mem _ List.mem_cons_self)
  | cons first others =>
      refine ⟨?_, fun v hv => ?_⟩
      · exact List.mem_append_right _ (List.mem_cons_of_mem _ (mem_enclosed.mpr (.inl rfl)))
      · have own : line v.text ∈ v.lines := List.mem_append_right _ List.mem_cons_self
        have inside : line v.text ∈ (first :: others).flatMap Variant.lines :=
          List.mem_flatMap.mpr ⟨v, hv, own⟩
        refine List.mem_append_right _ (List.mem_cons_of_mem _ ?_)
        exact mem_enclosed_of_mem inside

/-- The lines of each struct are among those of all, but for the comma behind it. -/
theorem mem_structLines {s : StructDecl} {l : Line} (h : ∀ isLast, l ∈ s.lines isLast)
    {structs : List StructDecl} (hs : s ∈ structs) : l ∈ structLines structs := by
  induction structs using structLines.induct with
  | case1 => cases hs
  | case2 only =>
      obtain rfl := List.mem_singleton.mp hs
      exact h true
  | case3 first rest others ih =>
      rw [structLines.eq_3 _ _ others]
      rcases List.mem_cons.mp hs with rfl | hs
      · exact List.mem_append_left _ (h false)
      · exact List.mem_append_right _ (ih hs)

/-- Each line of some structs is a line of one of them. -/
theorem exists_of_mem_structLines {l : Line} {structs : List StructDecl}
    (h : l ∈ structLines structs) : ∃ s ∈ structs, ∃ isLast, l ∈ s.lines isLast := by
  induction structs using structLines.induct with
  | case1 => cases h
  | case2 only => exact ⟨only, List.mem_cons_self, true, h⟩
  | case3 first rest others ih =>
      rw [structLines.eq_3 _ _ others] at h
      rcases List.mem_append.mp h with h | h
      · exact ⟨first, List.mem_cons_self, false, h⟩
      · obtain ⟨s, hs, own⟩ := ih h
        exact ⟨s, List.mem_cons_of_mem _ hs, own⟩

section Modules

variable {m : ModuleDecl}

/-- **A group stands in its module as a whole**: the name of the storage, and behind it the
types. -/
theorem group_infix_items {g : BitfieldGroup} (h : g ∈ m.groups) :
    nested g.lines <:+: m.items := by
  have some : m.groups.isEmpty = false := by
    cases groups : m.groups with
    | nil => exact absurd (groups ▸ h) List.not_mem_nil
    | cons _ _ => rfl
  have one : g.lines <:+: m.groups.flatMap BitfieldGroup.lines :=
    List.infix_of_mem_flatten (List.mem_map_of_mem h)
  have inside : nested g.lines <:+: m.bitsLines := by
    rw [ModuleDecl.bitsLines, some, if_neg Bool.false_ne_true, enclosed, nested_append]
    refine (one.map _).trans ?_
    rw [← List.cons_append]
    exact List.infix_append _ _ _
  exact inside.trans (List.infix_append _ _ _)

theorem mem_items_of_group {g : BitfieldGroup} (h : g ∈ m.groups) {depth : Nat} {text : String}
    (own : ⟨depth, text⟩ ∈ g.types.flatMap BitfieldDecl.lines) :
    ⟨depth + 2, text⟩ ∈ m.items := by
  refine (group_infix_items h).subset (List.mem_map.mpr ⟨⟨depth + 1, text⟩, ?_, rfl⟩)
  exact mem_enclosed_of_mem (List.mem_cons_of_mem _ own)

theorem mem_items_of_struct {s : StructDecl} (h : s ∈ m.structs) {depth : Nat} {text : String}
    (own : ∀ isLast, ⟨depth, text⟩ ∈ s.lines isLast) : ⟨depth + 2, text⟩ ∈ m.items := by
  have some : m.structs.isEmpty = false := by
    cases structs : m.structs with
    | nil => exact absurd (structs ▸ h) List.not_mem_nil
    | cons _ _ => rfl
  refine List.mem_append_right _ ?_
  rw [ModuleDecl.regsLines, some, if_neg Bool.false_ne_true]
  have inside : ⟨depth + 1, text⟩ ∈
      enclosed "register_structs! \x7b" "\x7d" (structLines m.structs) :=
    mem_enclosed_of_mem (mem_structLines own h)
  exact mem_enclosed_of_mem (List.mem_append_right _ inside)

/-- **Every declaration of a module has its line**, as deep as it is. -/
theorem ModuleDecl.Introduces.mem_items {depth : Nat} {name text : String}
    (h : m.Introduces depth name text) : ⟨depth, text⟩ ∈ m.items := by
  cases h with
  | @constant c hc =>
      have own : line ("pub " ++ "const " ++ c.name ++ ": " ++ c.typeName ++ " = " ++ c.value ++ ";") ∈
          c.lines "pub " := List.mem_append_right _ List.mem_cons_self
      refine List.mem_append_left _ (List.mem_append_left _ ?_)
      rcases List.mem_cons.mp hc with rfl | hc
      · exact List.mem_append_left _ (List.mem_append_right _ own)
      · exact List.mem_append_right _ (List.mem_flatMap.mpr ⟨c, hc, own⟩)
  | @type g t hg ht =>
      have own : line ("pub " ++ t.name ++ " [") ∈ t.lines :=
        List.mem_append_right _ (mem_enclosed.mpr (.inl rfl))
      exact mem_items_of_group hg (List.mem_flatMap.mpr ⟨t, ht, own⟩)
  | @field g t f hg ht hf =>
      have inside : line f.text ∈ t.fields.flatMap FieldDecl.lines :=
        List.mem_flatMap.mpr ⟨f, hf, f.mem_lines.1⟩
      have own : ⟨1, f.text⟩ ∈ t.lines :=
        List.mem_append_right _ (mem_enclosed_of_mem inside)
      exact mem_items_of_group hg (List.mem_flatMap.mpr ⟨t, ht, own⟩)
  | @variant g t f v hg ht hf hv =>
      have inside : ⟨1, v.text⟩ ∈ t.fields.flatMap FieldDecl.lines :=
        List.mem_flatMap.mpr ⟨f, hf, f.mem_lines.2 v hv⟩
      have own : ⟨2, v.text⟩ ∈ t.lines :=
        List.mem_append_right _ (mem_enclosed_of_mem inside)
      exact mem_items_of_group hg (List.mem_flatMap.mpr ⟨t, ht, own⟩)
  | struct hs => exact mem_items_of_struct hs fun isLast => mem_enclosed.mpr (.inl rfl)
  | @entry s e _ hs he _ =>
      have inside : line e.text ∈ s.entries.map (fun e => line e.text) ++ [line (endText s.stop)] :=
        List.mem_append_left _ (List.mem_map_of_mem he)
      exact mem_items_of_struct hs fun isLast => mem_enclosed_of_mem inside

/-- The line of a member that refers to something is among those of its module. -/
theorem ModuleDecl.Refers.mem_items {name : String} {s : Slot} (h : m.Refers name s) :
    ⟨3, (Entry.field s).text⟩ ∈ m.items := by
  cases h with
  | bitfield hd hs _ => exact (Introduces.entry hd hs rfl).mem_items
  | struct hd hs _ => exact (Introduces.entry hd hs rfl).mem_items

end Modules

/-! ### Nothing else -/

/-- The fixed lines of a module: those that open and close levels, and the uses in them. -/
def brackets : List String :=
  ["pub mod bits \x7b", "use tock_registers::register_bitfields;", "register_bitfields! \x7b", "],",
    "pub mod regs \x7b", "use tock_registers::register_structs;", "register_structs! \x7b", "\x7d",
    "\x7d,"]

/-- **A line that declares nothing**: a comment, a fixed line, the integer type that a group begins
with, or the end of a struct. -/
inductive Frame : String → Prop
  | comment {text : String} : ['/', '/'] <+: text.toList → Frame text
  | bracket {text : String} : text ∈ brackets → Frame text
  | storage (s : Storage) : Frame (s.typeName ++ ",")
  | stop (n : Nat) : Frame (endText n)

theorem frame_of_mem_outerDoc {docs : List String} {l : Line} (h : l ∈ outerDoc docs) :
    Frame l.text := by
  obtain ⟨d, -, rfl⟩ := List.mem_map.mp h
  exact .comment (by simp)

/-- **The lines of a field** are its own and those of its variants. -/
theorem FieldDecl.cases_of_mem_lines {f : FieldDecl} {l : Line} (h : l ∈ f.lines) :
    Frame l.text ∨ l = line f.text ∨ ∃ v ∈ f.variants, l = ⟨1, v.text⟩ := by
  unfold FieldDecl.lines at h
  rcases List.mem_append.mp h with docs | h
  · exact .inl (frame_of_mem_outerDoc docs)
  rcases List.mem_cons.mp h with rfl | h
  · exact .inl (.comment (by simp [FieldDecl.remark]))
  unfold FieldDecl.text
  cases variants : f.variants with
  | nil =>
      rw [variants] at h
      exact .inr (.inl (List.mem_singleton.mp h))
  | cons first others =>
      rw [variants] at h
      rcases mem_enclosed.mp h with opening | ⟨x, hx, rfl⟩ | rfl
      · exact .inr (.inl opening)
      · obtain ⟨v, hv, own⟩ := List.mem_flatMap.mp hx
        rcases List.mem_append.mp own with docs | own
        · have comment := frame_of_mem_outerDoc docs
          exact .inl comment
        · obtain rfl := List.mem_singleton.mp own
          exact .inr (.inr ⟨v, hv, rfl⟩)
      · exact .inl (.bracket (by decide))

/-- **The lines of a bitfield type** are its own, those of its fields and those of their
variants. -/
theorem BitfieldDecl.cases_of_mem_lines {t : BitfieldDecl} {l : Line} (h : l ∈ t.lines) :
    Frame l.text ∨ l = line ("pub " ++ t.name ++ " [") ∨ (∃ f ∈ t.fields, l = ⟨1, f.text⟩) ∨
      ∃ f ∈ t.fields, ∃ v ∈ f.variants, l = ⟨2, v.text⟩ := by
  rcases List.mem_append.mp h with docs | h
  · exact .inl (frame_of_mem_outerDoc docs)
  rcases mem_enclosed.mp h with opening | ⟨x, hx, rfl⟩ | rfl
  · exact .inr (.inl opening)
  · obtain ⟨f, hf, hx⟩ := List.mem_flatMap.mp hx
    rcases FieldDecl.cases_of_mem_lines hx with frame | rfl | ⟨v, hv, rfl⟩
    · exact .inl frame
    · exact .inr (.inr (.inl ⟨f, hf, rfl⟩))
    · exact .inr (.inr (.inr ⟨f, hf, v, hv, rfl⟩))
  · exact .inl (.bracket (by decide))

/-- **The lines of a struct** are its own, and one for each entry. -/
theorem StructDecl.cases_of_mem_lines {s : StructDecl} {isLast : Bool} {l : Line}
    (h : l ∈ s.lines isLast) :
    Frame l.text ∨ l = line ("pub " ++ s.name ++ " \x7b") ∨ ∃ e ∈ s.entries, l = ⟨1, e.text⟩ := by
  rcases mem_enclosed.mp h with opening | ⟨x, hx, rfl⟩ | rfl
  · exact .inr (.inl opening)
  · rcases List.mem_append.mp hx with hx | hx
    · obtain ⟨e, he, rfl⟩ := List.mem_map.mp hx
      exact .inr (.inr ⟨e, he, rfl⟩)
    · obtain rfl := List.mem_singleton.mp hx
      exact .inl (.stop s.stop)
  · exact .inl (.bracket (by cases isLast <;> decide))

/-- An entry that declares nothing is a remark. -/
theorem Entry.frame_of_declared?_eq_none {e : Entry} (h : e.declared? = none) : Frame e.text := by
  cases e with
  | field _ => cases h
  | reserved _ _ => cases h
  | remark s => exact .comment (by simp [Entry.text])

section Modules

variable {m : ModuleDecl}

theorem ModuleDecl.cases_of_mem_bitsLines {l : Line} (h : l ∈ m.bitsLines) :
    Frame l.text ∨ ∃ name, m.Introduces l.depth name l.text := by
  unfold ModuleDecl.bitsLines at h
  split at h
  · cases h
  rcases mem_enclosed.mp h with rfl | ⟨x, hx, rfl⟩ | rfl
  · exact .inl (.bracket (by decide))
  · rcases List.mem_append.mp hx with hx | hx
    · rcases List.mem_cons.mp hx with rfl | hx
      · exact .inl (.comment (by decide))
      · obtain rfl := List.mem_singleton.mp hx
        exact .inl (.bracket (by decide))
    · obtain ⟨g, hg, hx⟩ := List.mem_flatMap.mp hx
      rcases mem_enclosed.mp hx with rfl | ⟨y, hy, rfl⟩ | rfl
      · exact .inl (.bracket (by decide))
      · rcases List.mem_cons.mp hy with rfl | hy
        · exact .inl (.storage g.storage)
        · obtain ⟨t, ht, hy⟩ := List.mem_flatMap.mp hy
          rcases BitfieldDecl.cases_of_mem_lines hy with
            frame | rfl | ⟨f, hf, rfl⟩ | ⟨f, hf, v, hv, rfl⟩
          · exact .inl frame
          · exact .inr ⟨_, .type hg ht⟩
          · exact .inr ⟨_, .field hg ht hf⟩
          · exact .inr ⟨_, .variant hg ht hf hv⟩
      · exact .inl (.bracket (by decide))
  · exact .inl (.bracket (by decide))

theorem ModuleDecl.cases_of_mem_regsLines {l : Line} (h : l ∈ m.regsLines) :
    Frame l.text ∨ ∃ name, m.Introduces l.depth name l.text := by
  unfold ModuleDecl.regsLines at h
  split at h
  · cases h
  rcases mem_enclosed.mp h with rfl | ⟨x, hx, rfl⟩ | rfl
  · exact .inl (.bracket (by decide))
  · rcases List.mem_append.mp hx with hx | hx
    · rcases List.mem_cons.mp hx with rfl | hx
      · exact .inl (.comment (by decide))
      · obtain rfl := List.mem_singleton.mp hx
        exact .inl (.bracket (by decide))
    · rcases mem_enclosed.mp hx with rfl | ⟨y, hy, rfl⟩ | rfl
      · exact .inl (.bracket (by decide))
      · obtain ⟨s, hs, isLast, hy⟩ := exists_of_mem_structLines hy
        rcases StructDecl.cases_of_mem_lines hy with frame | rfl | ⟨e, he, rfl⟩
        · exact .inl frame
        · exact .inr ⟨_, .struct hs⟩
        · cases declared : e.declared? with
          | none => exact .inl (Entry.frame_of_declared?_eq_none declared)
          | some name => exact .inr ⟨name, .entry hs he declared⟩
      · exact .inl (.bracket (by decide))
  · exact .inl (.bracket (by decide))

theorem ModuleDecl.cases_of_mem_constant {c : Constant} (hc : c ∈ m.address :: m.interrupts)
    {l : Line} (h : l ∈ c.lines "pub ") :
    Frame l.text ∨ ∃ name, m.Introduces l.depth name l.text := by
  rcases List.mem_append.mp h with docs | h
  · exact .inl (frame_of_mem_outerDoc docs)
  · obtain rfl := List.mem_singleton.mp h
    exact .inr ⟨c.name, .constant hc⟩

/-- **A module prints its declarations and nothing else**: each of its lines is part of the frame,
or is the line of a declaration, at the depth of it. -/
theorem ModuleDecl.cases_of_mem_items {l : Line} (h : l ∈ m.items) :
    Frame l.text ∨ ∃ name, m.Introduces l.depth name l.text := by
  simp only [items, List.mem_append, or_assoc] at h
  rcases h with docs | address | interrupt | bits | regs
  · obtain ⟨d, -, rfl⟩ := List.mem_map.mp docs
    exact .inl (.comment (by simp))
  · exact cases_of_mem_constant List.mem_cons_self address
  · obtain ⟨c, hc, own⟩ := List.mem_flatMap.mp interrupt
    exact cases_of_mem_constant (List.mem_cons_of_mem _ hc) own
  · exact cases_of_mem_bitsLines bits
  · exact cases_of_mem_regsLines regs

end Modules

/-! ### Lines of a text -/

/-- **A line that holds no line feed is a line of the text**, whatever the other lines hold. -/
theorem chars_mem_splitLines {lines : List Line} {l : Line} (h : l ∈ lines) (oneLine : OneLine l.text)
    (indentation : Indentation) :
    l.chars indentation.unit ∈ splitLines (renderLines indentation.unit lines).toList := by
  induction lines with
  | nil => cases h
  | cons first rest ih =>
      rw [renderLines_cons, String.toList_append, toList_render, List.append_assoc,
        List.singleton_append, splitLines_append]
      rcases List.mem_cons.mp h with rfl | h
      · rw [List.splitOn_eq_singleton (not_mem_chars oneLine indentation)]
        exact List.mem_append_left _ (List.mem_singleton_self _)
      · exact List.mem_append_right _ (ih h)

/-- **A file shows a line** when it is among the lines of its text, behind its margin. -/
def SourceFile.Shows (o : Options) (f : SourceFile) (l : Line) : Prop :=
  l.chars o.indentation.unit ∈ splitLines f.contents.toList

section Files

variable {d : Device} {o : Options} {ps : List Peripheral} {files : List SourceFile}

/-- What is a line of a file before it becomes a text is shown by one of the files. -/
theorem Exports.exists_shows (h : Exports d o ps files) {f : FileLines} (hf : f ∈ fileLines d o ps) :
    ∃ file ∈ files, ∀ l ∈ f.lines, OneLine l.text → file.Shows o l := by
  refine ⟨f.render o.indentation.unit, h.files ▸ List.mem_map_of_mem hf, fun l hl oneLine => ?_⟩
  exact chars_mem_splitLines hl oneLine o.indentation

/-- **The lines of a module stand in a file**, all of them equally deeper than in the module. -/
theorem exists_file_of_items {p : Peripheral} (h : p ∈ ps) :
    ∃ f ∈ fileLines d o ps, ∃ outer, ∀ l ∈ (ModuleDecl.ofPeripheral p).items,
      ⟨l.depth + outer, l.text⟩ ∈ f.lines := by
  unfold fileLines
  cases o.arrangement with
  | combined =>
      refine ⟨_, List.mem_cons_self, 1, fun l hl => ?_⟩
      have own : ⟨l.depth + 1, l.text⟩ ∈ inlineModule o.visibility.keyword p :=
        List.mem_cons_of_mem _ (mem_enclosed_of_mem hl)
      refine List.mem_append_left _ (List.mem_append_right _ ?_)
      exact List.mem_flatMap.mpr ⟨p, h, own⟩
  | perPeripheral =>
      refine ⟨_, List.mem_cons_of_mem _ (List.mem_map_of_mem h), 0, fun l hl => ?_⟩
      exact List.mem_append_right _ (List.mem_cons_of_mem _ hl)

/-- **The module of a peripheral is declared** in a file: as a block with the lines of the module,
or by its name alone. -/
theorem exists_module_line {p : Peripheral} (h : p ∈ ps) :
    ∃ f ∈ fileLines d o ps, ∃ text, line text ∈ f.lines ∧ OneLine text ∧
      HasWord (ModuleDecl.ofPeripheral p).name text := by
  have front : (o.visibility.keyword ++ "mod ").toList.getLast?.all parts = true :=
    ends_append _ (by decide)
  have oneLine : OneLine (o.visibility.keyword ++ "mod " ++ (ModuleDecl.ofPeripheral p).name) := by
    have name := oneLine_of_isBare (isBare_snakeCase p.name)
    simp +decide [oneLine_keyword, ofPeripheral_name, name]
  unfold fileLines
  cases o.arrangement with
  | combined =>
      refine ⟨_, List.mem_cons_self, _, ?_, oneLine_append.mpr ⟨oneLine, ?_⟩,
        hasWord _ front (show " \x7b".toList.head?.all parts = true by decide)⟩
      · have own : line (o.visibility.keyword ++ "mod " ++ (ModuleDecl.ofPeripheral p).name ++
            " \x7b") ∈ inlineModule o.visibility.keyword p :=
          List.mem_cons_of_mem _ (mem_enclosed.mpr (.inl rfl))
        refine List.mem_append_left _ (List.mem_append_right _ ?_)
        exact List.mem_flatMap.mpr ⟨p, h, own⟩
      · decide
  | perPeripheral =>
      refine ⟨_, List.mem_cons_self, _, ?_, oneLine_append.mpr ⟨oneLine, ?_⟩,
        hasWord _ front (show ";".toList.head?.all parts = true by decide)⟩
      · rw [ofPeripheral_name]
        refine List.mem_append_left _ (List.mem_append_right _ (List.mem_cons_of_mem _ ?_))
        exact List.mem_map_of_mem h
      · decide

end Files

/-! ### Pointers -/

/-- **The lines of a pointer**: the first one declares it, as a constant or as a member, and names
its type; its value is on the same line or on another one. -/
structure Instance.PrintedBy (i : Instance) (first second : Line) : Prop where
  oneLine : OneLine first.text ∧ OneLine second.text
  declared : HasWord (Name.constantCase i.name) first.text ∨
    HasWord (Name.snakeCase i.name) first.text
  pointer : HasWord i.pointer first.text
  value : HasWord i.value second.text

section Pointers

variable {i : Instance} (oneLine : OneLine i.pointer ∧ OneLine i.value) (visibility : Visibility)

include oneLine

/-- A pointer that is a constant is on one line. -/
theorem printedBy_constantLine :
    i.PrintedBy (i.constantLine visibility.keyword) (i.constantLine visibility.keyword) := by
  have text : (i.constantLine visibility.keyword).text = visibility.keyword ++ "const " ++
    Name.constantCase i.name ++ ": " ++ i.pointer ++ " = " ++ i.value ++ ";" := rfl
  have own : OneLine (i.constantLine visibility.keyword).text := by
    have name := oneLine_of_isBare (isBare_constantCase i.name)
    simp +decide [text, oneLine_keyword, name, oneLine.1, oneLine.2]
  refine ⟨⟨own, own⟩, .inl ?_, ?_, ?_⟩
  · refine ⟨visibility.keyword ++ "const ", ": " ++ (i.pointer ++ (" = " ++ (i.value ++ ";"))), ?_,
      ends_append _ (by decide), begins_append (by decide) _⟩
    simp only [text, String.append_assoc]
  · refine ⟨visibility.keyword ++ "const " ++ Name.constantCase i.name ++ ": ",
      " = " ++ (i.value ++ ";"), ?_, ends_append _ (by decide), begins_append (by decide) _⟩
    simp only [text, String.append_assoc]
  · exact text ▸ hasWord _ (ends_append _ (by decide)) (by decide)

/-- A pointer that is a member has a line in the type and one in the value. -/
theorem printedBy_members :
    i.PrintedBy ⟨1, visibility.keyword ++ Name.snakeCase i.name ++ ": " ++ i.pointer ++ ","⟩
      ⟨3, Name.snakeCase i.name ++ ": " ++ i.value ++ ","⟩ := by
  have name := oneLine_of_isBare (isBare_snakeCase i.name)
  have edge : visibility.keyword.toList.getLast?.all parts = true := by
    cases visibility <;> decide
  refine ⟨?_, .inr ?_, ?_, ?_⟩
  · simp +decide [oneLine_keyword, name, oneLine.1, oneLine.2]
  · refine ⟨visibility.keyword, ": " ++ (i.pointer ++ ","), ?_, edge, begins_append (by decide) _⟩
    simp only [String.append_assoc]
  · exact hasWord _ (ends_append _ (by decide)) (by decide)
  · exact hasWord _ (ends_append _ (by decide)) (by decide)

/-- **Every pointer is printed** in each of the three forms that the options choose from. -/
theorem exists_printedBy {o : Options} {instances : List Instance} (h : i ∈ instances)
    (deviceName : String) : ∃ first ∈ instanceLines o deviceName instances,
      ∃ second ∈ instanceLines o deviceName instances, i.PrintedBy first second := by
  have some : instances.isEmpty = false := by
    cases instances with
    | nil => cases h
    | cons _ _ => rfl
  have constant := printedBy_constantLine oneLine o.visibility
  have listed : i.constantLine o.visibility.keyword ∈
      instances.map (Instance.constantLine o.visibility.keyword) := List.mem_map_of_mem h
  unfold instanceLines
  rw [some, if_neg Bool.false_ne_true]
  cases o.namespaceUnderDevice with
  | false => exact ⟨_, List.mem_cons_of_mem _ listed, _, List.mem_cons_of_mem _ listed, constant⟩
  | true =>
      cases o.instanceMembers with
      | false =>
          have inside (deviceType : String) : ⟨1, (i.constantLine o.visibility.keyword).text⟩ ∈
              associatedLines o.visibility.keyword deviceType instances :=
            List.mem_append_right _ (mem_enclosed_of_mem listed)
          have own := List.mem_append_right [blank, line ("/// Peripheral instances of " ++
            deviceName ++ ".")] (inside (Name.camelCase deviceName))
          exact ⟨_, own, _, own, ⟨constant.oneLine, constant.declared, constant.pointer,
            constant.value⟩⟩
      | true =>
          refine ⟨_, List.mem_append_right _ ?_, _, List.mem_append_right _ ?_,
            printedBy_members oneLine o.visibility⟩
          · exact List.mem_append_left _
              (mem_enclosed_of_mem (List.mem_map_of_mem h))
          · -- The value is inside the block of the type, of its function and of the result.
            have own : line (Name.snakeCase i.name ++ ": " ++ i.value ++ ",") ∈ instances.map fun i =>
                line (Name.snakeCase i.name ++ ": " ++ i.value ++ ",") := List.mem_map_of_mem h
            refine List.mem_append_right _ (List.mem_cons_of_mem _ ?_)
            exact mem_enclosed_of_mem (mem_enclosed_of_mem (mem_enclosed_of_mem own))

end Pointers

/-! ### Files -/

/-- **A module is shown** by lines of a text: those of its declarations and of its references, with
the names as words of them, and all of them as deep as they are in the module and `outer` levels
more. -/
structure ModuleDecl.ShownBy (m : ModuleDecl) (shows : Line → Prop) (outer : Nat) : Prop where
  declares : ∀ {depth name text}, m.Introduces depth name text →
    shows ⟨depth + outer, text⟩ ∧ HasWord name text
  refers : ∀ {name s}, m.Refers name s →
    shows ⟨3 + outer, (Entry.field s).text⟩ ∧ HasWord name (Entry.field s).text

/-- **What the text of exported files holds**: the modules by name, the declarations and references
of each of them, and the pointers. -/
structure FilesPrinted (o : Options) (ps : List Peripheral) (files : List SourceFile) : Prop where
  modules : ∀ p ∈ ps, ∃ file ∈ files, ∃ text, file.Shows o (line text) ∧
    HasWord (ModuleDecl.ofPeripheral p).name text
  items : ∀ p ∈ ps, ∃ file ∈ files, ∃ outer,
    (ModuleDecl.ofPeripheral p).ShownBy (file.Shows o) outer
  pointers : ∀ p ∈ ps, ∀ i, Instance.ofPeripheral? p = some i →
    ∃ file ∈ files, ∃ first second, file.Shows o first ∧ file.Shows o second ∧
      i.PrintedBy first second

/-- **The text of exported files** holds every declaration and every reference of the modules that
it is made from.  Nothing is assumed of the map, nor of the options. -/
theorem Exports.printed {d : Device} {o : Options} {ps : List Peripheral} {files : List SourceFile}
    (h : Exports d o ps files) : FilesPrinted o ps files := by
  refine ⟨fun p hp => ?_, fun p hp => ?_, fun p hp i own => ?_⟩
  · obtain ⟨f, hf, text, hl, oneLine, word⟩ := exists_module_line (d := d) (o := o) hp
    obtain ⟨file, hfile, shows⟩ := h.exists_shows hf
    exact ⟨file, hfile, text, shows _ hl oneLine, word⟩
  · obtain ⟨f, hf, outer, inside⟩ := exists_file_of_items (d := d) (o := o) hp
    obtain ⟨file, hfile, shows⟩ := h.exists_shows hf
    have shown {l : Line} (hl : l ∈ (ModuleDecl.ofPeripheral p).items) :
        file.Shows o ⟨l.depth + outer, l.text⟩ :=
      shows _ (inside l hl) (items_oneLine p l hl).2
    exact ⟨file, hfile, outer, fun declared => ⟨shown declared.mem_items, declared.hasWord⟩,
      fun referred => ⟨shown referred.mem_items, referred.hasWord⟩⟩
  · have listed : i ∈ ps.filterMap Instance.ofPeripheral? := List.mem_filterMap.mpr ⟨p, hp, own⟩
    obtain ⟨first, hfirst, second, hsecond, printed⟩ :=
      exists_printedBy (o := o) (oneLine_instance own) listed (deviceNameOf d o)
    obtain ⟨f, hf, inside⟩ : ∃ f ∈ fileLines d o ps, ∀ l ∈ pointerLines d o ps, l ∈ f.lines := by
      unfold fileLines
      cases o.arrangement with
      | combined => exact ⟨_, List.mem_cons_self, fun l hl => List.mem_append_right _ hl⟩
      | perPeripheral => exact ⟨_, List.mem_cons_self, fun l hl => List.mem_append_right _ hl⟩
    obtain ⟨file, hfile, shows⟩ := h.exists_shows hf
    exact ⟨file, hfile, first, second, shows _ (inside _ hfirst) printed.oneLine.1,
      shows _ (inside _ hsecond) printed.oneLine.2, printed⟩

/-- **A pointer is made of declared names**: of the module, of the constant with the address and of
one of the structs, each of them a word of the pointer or of its value. -/
theorem Instance.Names.hasWord {i : Instance} {m : ModuleDecl} {s : StructDecl} (h : i.Names m s) :
    HasWord m.name i.pointer ∧ HasWord s.name i.pointer ∧ HasWord m.name i.value ∧
      HasWord m.address.name i.value := by
  rw [h.pointer, h.value]
  refine ⟨?_, ?_, ?_, ?_⟩
  · refine ⟨"*const ", "::regs::" ++ s.name, ?_, by decide, begins_append (by decide) _⟩
    simp only [String.append_assoc]
  · refine ⟨"*const " ++ m.name ++ "::regs::", "", ?_, ends_append _ (by decide), rfl⟩
    rw [String.append_empty]
  · refine ⟨"", "::" ++ (m.address.name ++ (" as " ++ i.pointer)), ?_, rfl,
      begins_append (by decide) _⟩
    simp only [String.append_assoc, String.empty_append]
  · refine ⟨m.name ++ "::", " as " ++ i.pointer, ?_, ends_append _ (by decide),
      begins_append (by decide) _⟩
    simp only [String.append_assoc]

end ChipMap.Source
