import ChipMap.Proofs.Source.Scopes

/-!
# Levels of nesting

A line of source is as deep as there are brackets open at it.  `levelsBehind?` counts them: it
follows lines from one to the next, compares the depth of each with the brackets that are open at
it, and keeps those that are still to be closed.  **The lines of a module nest** (`tidy_items`):
each of them is as deep as it has to be, each bracket is closed by one of its own kind, and nothing
is open behind the last line.

### What is load-bearing

A line is told from its text: it opens a level by its last character and closes one by its first.
So what else begins or ends a line has to be known.  A line begins with a marker of comments, with a
word of the language, or with a name that is not empty; that is where the names of fields and
variants have to be identifiers.  A comment opens no level, whatever its text ends in.

Depths are relative: lines nest when they do so inside any levels (`Nests`), and that is what a
bracket around them preserves (`Nests.enclosed`).  The counting itself knows nothing of the printer,
so it can be run on any lines.
-/

namespace ChipMap.Source

open Name (IsIdentifier isIdentifierChar)

/-! ### Brackets -/

/-- The bracket that closes what a character opens. -/
def closing? (c : Char) : Option Char :=
  if c = '\x7b' then some '\x7d' else if c = '[' then some ']' else none

/-- The bracket that closes the level which a text opens.  A comment opens none. -/
def opened? (text : String) : Option Char :=
  if ['/', '/'].isPrefixOf text.toList then none else text.toList.getLast?.bind closing?

/-- The bracket with which a text closes a level. -/
def closed? (text : String) : Option Char :=
  text.toList.head?.filter fun c => c == '\x7d' || c == ']'

/-- **The levels that are open behind a line**, by the brackets that close them, the innermost
first.  A line is as deep as there are levels open at it, and a line that closes a level is outside
it.  A blank line has no depth. -/
def Line.next? (l : Line) (levels : List Char) : Option (List Char) :=
  match closed? l.text, levels with
  | none, levels =>
    if l.text.isEmpty ∨ l.depth = levels.length then some ((opened? l.text).toList ++ levels)
    else none
  | some bracket, inner :: outer =>
    if bracket = inner ∧ l.depth = outer.length then some ((opened? l.text).toList ++ outer)
    else none
  | some _, [] => none

/-- The levels that are open behind some lines. -/
def levelsBehind? (levels : List Char) (lines : List Line) : Option (List Char) :=
  lines.foldlM (fun levels l => l.next? levels) levels

def deepen (levels : Nat) (lines : List Line) : List Line :=
  lines.map fun l => { l with depth := l.depth + levels }

/-- **Lines that nest**: inside any levels, they leave open what was open before. -/
def Nests (lines : List Line) : Prop :=
  ∀ levels : List Char, levelsBehind? levels (deepen levels.length lines) = some levels

theorem levelsBehind?_append (levels : List Char) (a b : List Line) :
    levelsBehind? levels (a ++ b) = (levelsBehind? levels a).bind (levelsBehind? · b) :=
  List.foldlM_append

theorem deepen_append (levels : Nat) (a b : List Line) :
    deepen levels (a ++ b) = deepen levels a ++ deepen levels b := List.map_append

theorem deepen_nested (levels : Nat) (lines : List Line) :
    deepen levels (nested lines) = deepen (levels + 1) lines := by
  simp [deepen, nested, Nat.add_assoc, Nat.add_comm 1]

theorem Nests.closed {lines : List Line} (h : Nests lines) : levelsBehind? [] lines = some [] := by
  have alone := h []
  rwa [show deepen [].length lines = lines from List.map_id' lines] at alone

theorem nests_nil : Nests [] := fun _ => rfl

theorem Nests.append {a b : List Line} (h : Nests a) (h' : Nests b) : Nests (a ++ b) := by
  intro levels
  rw [deepen_append, levelsBehind?_append, h, Option.bind_some, h']

/-! ### Texts of lines -/

/-- **A text that does not begin with a blank.** -/
def Flush (text : String) : Prop := ∀ c ∈ text.toList.head?, Text.isBlank c = false

instance (text : String) : Decidable (Flush text) :=
  decidable_of_iff ((text.toList.head?.all fun c => !Text.isBlank c) = true) (by
    simp [Flush, Option.all_eq_true])

/-- **The edges of a line**: its first character is no blank, and with its edges it closes and opens
levels of these brackets. -/
structure Edges (text : String) (closed opened : Option Char) : Prop where
  flush : Flush text
  closed : closed? text = closed
  opened : opened? text = opened

instance (text : String) (closed opened : Option Char) : Decidable (Edges text closed opened) :=
  decidable_of_iff (Flush text ∧ closed? text = closed ∧ opened? text = opened)
    ⟨fun ⟨flush, closed, opened⟩ => ⟨flush, closed, opened⟩,
      fun h => ⟨h.flush, h.closed, h.opened⟩⟩

/-- A line that neither closes nor opens a level. -/
abbrev Plain (text : String) : Prop := Edges text none none

/-- Whether a character begins a line of code that closes no level. -/
def isStart (c : Char) : Bool :=
  !Text.isBlank c && c != '/' && c != '\x7d' && c != ']'

/-- **A text that begins a line of code**, which closes no level. -/
def Starts (text : String) : Prop := text.toList.head?.any isStart = true

instance (text : String) : Decidable (Starts text) :=
  inferInstanceAs (Decidable (_ = true))

theorem starts_append {a b : String} (h : Starts a) : Starts (a ++ b) := by
  unfold Starts at h ⊢
  rw [String.toList_append, List.head?_append]
  cases front : a.toList.head? with
  | none => simp [front] at h
  | some c => simpa [front] using h

theorem isStart_of_isIdentifierChar {c : Char} (h : isIdentifierChar c = true) :
    isStart c = true := by
  rcases Bool.or_eq_true_iff.mp h with letter | underscore
  · exact Name.forall_isAlphanum (P := fun c => isStart c = true) (by decide +kernel) c letter
  · obtain rfl := beq_iff_eq.mp underscore
    decide

theorem starts_of_cons {text : String} {c : Char} {rest : List Char}
    (front : text.toList = c :: rest) (h : isIdentifierChar c = true) : Starts text := by
  have first := isStart_of_isIdentifierChar h
  simpa [Starts, front] using first

theorem starts_of_isIdentifier {name : String} (h : IsIdentifier name) : Starts name := by
  obtain ⟨chars, filled, -⟩ := h
  cases front : name.toList with
  | nil =>
      rw [front] at filled
      cases filled
  | cons c rest =>
      exact starts_of_cons front (List.all_eq_true.mp chars c (front ▸ List.mem_cons_self))

/-- A bare name may be empty, and then a line begins with what stands behind it. -/
theorem starts_of_isBare {name behind : String} (bare : Name.IsBare name) (h : Starts behind) :
    Starts (name ++ behind) := by
  cases front : name.toList with
  | nil => simpa [Starts, front] using h
  | cons c rest =>
      exact starts_append (starts_of_cons front (bare c (front ▸ List.mem_cons_self)))

theorem starts_of_visibility {behind : String} (visibility : Visibility) (h : Starts behind) :
    Starts (visibility.keyword ++ behind) := by
  cases visibility with
  | nobody => simpa [Visibility.keyword] using h
  | everyone => exact starts_append (by decide)
  | crate => exact starts_append (by decide)
  | parent => exact starts_append (by decide)

/-- What begins a line of code is flush, closes no level and is no comment. -/
theorem Starts.flush {text : String} (h : Starts text) :
    Flush text ∧ closed? text = none ∧ ['/', '/'].isPrefixOf text.toList = false := by
  unfold Starts at h
  unfold Flush closed?
  cases front : text.toList with
  | nil => simp [front] at h
  | cons c rest =>
      rw [front] at h
      obtain ⟨⟨⟨solid, slash⟩, brace⟩, bracket⟩ :
          ((Text.isBlank c = false ∧ c ≠ '/') ∧ c ≠ '\x7d') ∧ c ≠ ']' := by
        simpa [isStart] using h
      exact ⟨by simpa using solid, by simp [brace, bracket],
        by simp [List.isPrefixOf, slash.symm]⟩

/-- **A line of code** opens what its end says, and closes no level. -/
theorem edges_code {front last : String} (starts : Starts front) {bracket : Option Char}
    (ends : last.toList.getLast?.map closing? = some bracket) :
    Edges (front ++ last) none bracket := by
  obtain ⟨c, final, rfl⟩ := Option.map_eq_some_iff.mp ends
  obtain ⟨flush, closed, comment⟩ := (starts_append (b := last) starts).flush
  refine ⟨flush, closed, ?_⟩
  rw [opened?, comment, if_neg Bool.false_ne_true, String.toList_append, List.getLast?_append, final]
  rfl

/-- **A comment** neither closes nor opens a level. -/
theorem plain_comment {text : String} (h : ['/', '/'] <+: text.toList) : Plain text := by
  have comment := List.isPrefixOf_iff_prefix.mpr h
  obtain ⟨rest, front⟩ := h
  refine ⟨?_, ?_, if_pos comment⟩
  · rw [Flush, ← front]
    rintro _ ⟨⟩
    decide
  · rw [closed?, ← front]
    rfl

/-! ### Tidy lines -/

theorem nests_line {text : String} (plain : Plain text) : Nests [line text] := by
  intro levels
  simp [levelsBehind?, deepen, line, Line.next?, plain.closed, plain.opened]

/-- **Lines between brackets**: the first line opens a level and the last one closes it. -/
theorem Nests.enclosed {opening closing : String} (bracket : Char) {inner : List Line}
    (opens : Edges opening none bracket) (closes : Edges closing bracket none) (h : Nests inner) :
    Nests (enclosed opening closing inner) := by
  intro levels
  have first : levelsBehind? levels (deepen levels.length [line opening]) =
      some (bracket :: levels) := by
    simp [levelsBehind?, deepen, line, Line.next?, opens.closed, opens.opened]
  have last : levelsBehind? (bracket :: levels) (deepen levels.length [line closing]) =
      some levels := by
    simp [levelsBehind?, deepen, line, Line.next?, closes.closed, closes.opened]
  have inside := h (bracket :: levels)
  rw [Source.enclosed, ← List.singleton_append, List.append_assoc]
  rw [deepen_append, deepen_append, deepen_nested, levelsBehind?_append, first, Option.bind_some,
    levelsBehind?_append]
  rw [List.length_cons] at inside
  rw [inside, Option.bind_some, last]

/-- A line between brackets that is not deeper than these does not nest. -/
example :
    levelsBehind? [] (enclosed "mod m \x7b" "\x7d" [line "use a;"]) = some [] ∧
    levelsBehind? [] [line "mod m \x7b", line "use a;", line "\x7d"] = none := by decide

/-- **Tidy lines**: none begins with a blank, and all levels are closed. -/
structure Tidy (lines : List Line) : Prop where
  flush : ∀ l ∈ lines, Flush l.text
  nests : Nests lines

theorem tidy_nil : Tidy [] := ⟨List.forall_mem_nil _, nests_nil⟩

theorem Tidy.append {a b : List Line} (h : Tidy a) (h' : Tidy b) : Tidy (a ++ b) :=
  ⟨List.forall_mem_append.mpr ⟨h.flush, h'.flush⟩, h.nests.append h'.nests⟩

theorem Tidy.cons {text : String} {rest : List Line} (plain : Plain text) (h : Tidy rest) :
    Tidy (line text :: rest) :=
  ⟨List.forall_mem_cons.mpr ⟨plain.flush, h.flush⟩,
    (nests_line plain).append h.nests⟩

theorem tidy_line {text : String} (plain : Plain text) : Tidy [line text] := .cons plain tidy_nil

theorem Tidy.flatMap {α : Type} {f : α → List Line} {items : List α}
    (h : ∀ x ∈ items, Tidy (f x)) : Tidy (items.flatMap f) := by
  induction items with
  | nil => exact tidy_nil
  | cons x rest ih =>
      obtain ⟨first, others⟩ := List.forall_mem_cons.mp h
      exact first.append (ih others)

theorem Tidy.map {α : Type} {f : α → String} {items : List α} (h : ∀ x ∈ items, Plain (f x)) :
    Tidy (items.map fun x => line (f x)) := by
  rw [List.map_eq_flatMap]
  exact .flatMap fun x hx => tidy_line (h x hx)

theorem Tidy.enclosed {opening closing : String} (bracket : Char) {inner : List Line}
    (opens : Edges opening none bracket) (closes : Edges closing bracket none) (h : Tidy inner) :
    Tidy (enclosed opening closing inner) := by
  refine ⟨fun l hl => ?_, h.nests.enclosed bracket opens closes⟩
  rcases List.mem_append.mp hl with hl | hl
  · rcases List.mem_cons.mp hl with rfl | hl
    · exact opens.flush
    · obtain ⟨inside, hinside, rfl⟩ := List.mem_map.mp hl
      exact h.flush inside hinside
  · rw [List.mem_singleton.mp hl]
    exact closes.flush

/-! ### Declarations -/

theorem tidy_outerDoc (docs : List String) : Tidy (outerDoc docs) :=
  .map fun d _ => plain_comment (by simp)

theorem tidy_innerDoc (docs : List String) : Tidy (innerDoc docs) :=
  .map fun d _ => plain_comment (by simp)

theorem tidy_constant (c : Constant) : Tidy (c.lines "pub ") := by
  have starts : Starts ("pub " ++ "const " ++ c.name ++ ": " ++ c.typeName ++ " = " ++ c.value) := by
    iterate 5 apply starts_append
    decide
  exact (tidy_outerDoc c.docs).append (tidy_line (edges_code starts (by decide)))

theorem tidy_variant {v : Variant} (name : IsIdentifier v.name) : Tidy v.lines := by
  have starts : Starts (v.name ++ " = " ++ Numeral.hexConstant v.value.toNat) :=
    starts_append (starts_append (starts_of_isIdentifier name))
  exact (tidy_outerDoc v.docs).append (tidy_line (edges_code starts (by decide)))

/-- The lines of a field with a name, whose variants have names. -/
theorem tidy_field {f : FieldDecl} (name : IsIdentifier f.name)
    (variants : ∀ v ∈ f.variants, IsIdentifier v.name) : Tidy f.lines := by
  have starts : Starts (f.name ++ " OFFSET(" ++ toString f.bits.start ++ ") NUMBITS(" ++
      toString f.bits.width ++ ")") := by
    iterate 5 apply starts_append
    exact starts_of_isIdentifier name
  have remark : Plain f.remark.text := plain_comment (by simp [FieldDecl.remark, line])
  refine (tidy_outerDoc f.docs).append (.cons remark ?_)
  split
  · exact tidy_line (edges_code starts (by decide))
  · exact .enclosed ']' (edges_code starts (by decide)) (by decide)
      (.flatMap fun v hv => tidy_variant (variants v hv))

/-- The lines of a bitfield type whose fields and variants have names. -/
theorem tidy_bitfield {b : BitfieldDecl} (fields : ∀ f ∈ b.fields, IsIdentifier f.name)
    (variants : ∀ f ∈ b.fields, ∀ v ∈ f.variants, IsIdentifier v.name) : Tidy b.lines := by
  have starts : Starts ("pub " ++ b.name) := starts_append (by decide)
  refine (tidy_outerDoc b.docs).append (.enclosed ']' (edges_code starts (by decide)) (by decide) ?_)
  exact .flatMap fun f hf => tidy_field (fields f hf) (variants f hf)

theorem plain_entry (e : Entry) : Plain e.text := by
  cases e with
  | field s =>
      have starts : Starts ("(" ++ Numeral.hexPlain s.offset ++ " => pub " ++ s.name ++ ": " ++
          s.kind.typeName) := by
        iterate 5 apply starts_append
        decide
      exact edges_code starts (by decide)
  | reserved offset number =>
      have starts : Starts ("(" ++ Numeral.hexPlain offset ++ " => _reserved" ++
          toString number) := by
        iterate 3 apply starts_append
        decide
      exact edges_code starts (by decide)
  | remark s => exact plain_comment (by simp [Entry.text])

theorem tidy_struct (s : StructDecl) (isLast : Bool) : Tidy (s.lines isLast) := by
  have starts : Starts ("pub " ++ s.name) := starts_append (by decide)
  have place : Starts ("(" ++ Numeral.hexPlain s.stop) := starts_append (by decide)
  have last : Plain (endText s.stop) := edges_code place (by decide)
  refine .enclosed '\x7d' (edges_code starts (by decide)) (by cases isLast <;> decide) ?_
  exact .append (.map fun e _ => plain_entry e) (tidy_line last)

theorem tidy_structs (structs : List StructDecl) : Tidy (structLines structs) := by
  induction structs using structLines.induct with
  | case1 => exact tidy_nil
  | case2 s => exact tidy_struct s true
  | case3 s rest others ih =>
      rw [structLines.eq_3 _ _ others]
      exact (tidy_struct s false).append ih

theorem tidy_group {g : BitfieldGroup} (types : ∀ t ∈ g.types, Tidy t.lines) : Tidy g.lines := by
  have starts : Starts g.storage.typeName := starts_append (by decide)
  refine .enclosed '\x7d' (by decide) (by decide) ?_
  exact .cons (edges_code starts (by decide)) (.flatMap types)

/-! ### Modules -/

section Modules

variable {m : ModuleDecl}

theorem tidy_bitsLines (declared : m.Scoped) : Tidy m.bitsLines := by
  have groups : Tidy (m.groups.flatMap BitfieldGroup.lines) := by
    refine .flatMap fun g hg => tidy_group fun t ht => ?_
    refine tidy_bitfield (fun f hf => ?_) fun f hf v hv => ?_
    · exact ((declared.fields g hg t ht).declarable _ (List.mem_map_of_mem hf)).1
    · exact ((declared.variants g hg t ht f hf).declarable _ (List.mem_map_of_mem hv)).1
  unfold ModuleDecl.bitsLines
  split
  · exact tidy_nil
  · refine .enclosed '\x7d' (by decide) (by decide) (.append ?_ groups)
    exact .cons (by decide) (tidy_line (by decide))

theorem tidy_regsLines (m : ModuleDecl) : Tidy m.regsLines := by
  unfold ModuleDecl.regsLines
  split
  · exact tidy_nil
  · refine .enclosed '\x7d' (by decide) (by decide) (.append ?_ ?_)
    · exact .cons (by decide) (tidy_line (by decide))
    · exact .enclosed '\x7d' (by decide) (by decide) (tidy_structs m.structs)

/-- **The lines of a module are tidy** when its names may be declared. -/
theorem tidy_items (declared : m.Scoped) : Tidy m.items := by
  have interrupts : Tidy (m.interrupts.flatMap (Constant.lines "pub ")) :=
    .flatMap fun c _ => tidy_constant c
  refine (((Tidy.append ?_ (tidy_constant m.address)).append interrupts).append ?_).append ?_
  · exact tidy_innerDoc m.docs
  · exact tidy_bitsLines declared
  · exact tidy_regsLines m

end Modules

end ChipMap.Source
