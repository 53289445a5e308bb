import ChipMap.Options.Basic
import ChipMap.Source.Line
import Mathlib.Data.List.Basic

/-!
# Code and comments

A line of a text is code when something other than blanks is on it and no comment begins there.
**The code of rendered lines is the code of each of them in turn** (`codeLines_renderLines`), to
which a comment adds nothing (`flatMap_code_uncommented`), and the lines of a comment that is split
into lines are comments (`uncommented_outerDoc`).

### What is load-bearing

A line of source may hold a line feed, and then it becomes several lines of text, of which only the
first begins with what the line begins with.  So a line is a comment to its end only when it holds
no line feed (`Line.isComment`).

Two sources are compared by their lines without comments (`uncommented`), and never by their texts.
The simp lemmas take this apart along the printer, and the congruence lemmas put it together again.
-/

namespace ChipMap.Source

/-! ### Lines of a text -/

/-- Whether something other than blanks is on a line and no comment begins there. -/
def isCode (cs : List Char) : Bool :=
  let rest := Text.trimStart cs
  !rest.isEmpty && !(['/', '/'].isPrefixOf rest)

/-- The lines of a text that are code.  Blank lines are none. -/
def codeLines (cs : List Char) : List (List Char) := (cs.splitOn '\n').filter isCode

theorem codeLines_nil : codeLines [] = [] := by decide

/-- A line feed ends a line. -/
theorem codeLines_append (cs rest : List Char) :
    codeLines (cs ++ '\n' :: rest) = codeLines cs ++ codeLines rest := by
  rw [codeLines, List.splitOn_append_cons_self, List.filter_append]
  rfl

/-- A text of one line is code or not. -/
theorem codeLines_of_not_mem {cs : List Char} (h : '\n' ∉ cs) :
    codeLines cs = [cs].filter isCode := by
  rw [codeLines, List.splitOn_eq_singleton h]

theorem not_mem_of_mem_splitOn {cs : List Char} :
    ∀ part ∈ cs.splitOn '\n', '\n' ∉ part := by
  simp only [List.splitOn_eq_splitOnP]
  induction cs with
  | nil =>
      intro part h
      rw [List.splitOnP_nil, List.mem_singleton] at h
      exact h ▸ List.not_mem_nil
  | cons c rest ih =>
      intro part h
      rw [List.splitOnP_cons_eq_if_modifyHead] at h
      split at h
      · rcases List.mem_cons.mp h with rfl | h
        · exact List.not_mem_nil
        · exact ih part h
      · next other =>
        obtain ⟨first, later, parts⟩ :=
          List.exists_cons_of_ne_nil (List.splitOnP_ne_nil (· == '\n') rest)
        rw [parts] at h ih
        rcases List.mem_cons.mp h with rfl | h
        · rw [List.mem_cons, not_or]
          exact ⟨fun same => other (same ▸ beq_self_eq_true _), ih first List.mem_cons_self⟩
        · exact ih part (List.mem_cons_of_mem _ h)

/-! ### Lines of source -/

/-- The code that a line becomes: no line, one, or as many as it holds. -/
def Line.code (indent : String) (l : Line) : List (List Char) :=
  codeLines (l.render indent).toList

/-- The characters of a line before its end. -/
def Line.chars (indent : String) (l : Line) : List Char :=
  if l.text.isEmpty then [] else (List.replicate l.depth indent).flatMap String.toList ++ l.text.toList

theorem toList_render (indent : String) (l : Line) :
    (l.render indent).toList = l.chars indent ++ ['\n'] := by
  unfold Line.render Line.chars
  split
  · rfl
  · rw [String.toList_append, String.toList_append, String.toList_join]
    rfl

theorem render_blank (unit : String) : blank.render unit = "\n" := rfl

theorem render_line {text : String} (some : text ≠ "") (unit : String) :
    (line text).render unit = text ++ "\n" := by
  have filled : text.isEmpty = false := by simpa using some
  simp [Line.render, line, filled]

theorem renderLines_append (unit : String) (a b : List Line) :
    renderLines unit (a ++ b) = renderLines unit a ++ renderLines unit b := by
  simp [renderLines]

theorem renderLines_cons (unit : String) (l : Line) (rest : List Line) :
    renderLines unit (l :: rest) = l.render unit ++ renderLines unit rest := by
  simp [renderLines]

theorem renderLines_flatMap {α : Type} (unit : String) (f : α → List Line) (items : List α) :
    renderLines unit (items.flatMap f) = String.join (items.map fun x => renderLines unit (f x)) := by
  induction items with
  | nil => rfl
  | cons x rest ih =>
      rw [List.flatMap_cons, renderLines_append, ih, List.map_cons, String.join_cons]

theorem Line.code_eq (indent : String) (l : Line) : l.code indent = codeLines (l.chars indent) := by
  rw [Line.code, toList_render, codeLines_append, codeLines_nil, List.append_nil]

/-- **The code of rendered lines** is that of each of them. -/
theorem codeLines_renderLines (indent : String) (lines : List Line) :
    codeLines (renderLines indent lines).toList = lines.flatMap (Line.code indent) := by
  induction lines with
  | nil => rfl
  | cons l rest ih =>
      rw [renderLines_cons, String.toList_append, toList_render, List.append_assoc,
        List.singleton_append, codeLines_append, ih, List.flatMap_cons, Line.code_eq]

/-- Whether a line is a comment to its end. -/
def Line.isComment (l : Line) : Bool :=
  ['/', '/'].isPrefixOf l.text.toList && !l.text.toList.contains '\n'

/-- Lines without those that are comments to their end. -/
def uncommented (lines : List Line) : List Line := lines.filter fun l => !l.isComment

/-- The margin of a line is blank at any depth, and holds no line feed. -/
theorem margin_blank (indentation : Indentation) :
    ∀ c ∈ indentation.unit.toList, Text.isBlank c = true ∧ c ≠ '\n' := by
  cases indentation with
  | tabs =>
      intro c h
      obtain rfl : c = '\t' := List.mem_singleton.mp h
      decide
  | spaces count =>
      intro c h
      rw [Indentation.unit, String.toList_ofList] at h
      rw [List.eq_of_mem_replicate h]
      decide

/-- **A comment is no code** at any depth. -/
theorem Line.code_of_isComment {l : Line} (h : l.isComment = true) (indentation : Indentation) :
    l.code indentation.unit = [] := by
  obtain ⟨marker, oneLine⟩ := Bool.and_eq_true_iff.mp h
  have margin : ∀ c ∈ (List.replicate l.depth indentation.unit).flatMap String.toList,
      Text.isBlank c = true ∧ c ≠ '\n' := by
    intro c hc
    obtain ⟨unit, hunit, hc⟩ := List.mem_flatMap.mp hc
    exact margin_blank indentation c (List.eq_of_mem_replicate hunit ▸ hc)
  rw [Line.code_eq, Line.chars]
  split
  · exact codeLines_nil
  · rw [codeLines_of_not_mem]
    · obtain ⟨rest, text⟩ := List.isPrefixOf_iff_prefix.mp marker
      have start : Text.trimStart ((List.replicate l.depth indentation.unit).flatMap String.toList ++
          l.text.toList) = l.text.toList := by
        rw [Text.trimStart, List.dropWhile_append_of_pos fun c hc => (margin c hc).1, ← text]
        rfl
      rw [List.filter_singleton, isCode, start, marker]
      simp
    · rw [List.mem_append, not_or]
      exact ⟨fun hc => (margin _ hc).2 rfl, by simpa using oneLine⟩

/-- Comments add nothing to the code of lines. -/
theorem flatMap_code_uncommented (indentation : Indentation) (lines : List Line) :
    (uncommented lines).flatMap (Line.code indentation.unit) =
      lines.flatMap (Line.code indentation.unit) := by
  unfold uncommented
  induction lines with
  | nil => rfl
  | cons l rest ih =>
      cases h : l.isComment with
      | true =>
          rw [List.filter_cons_of_neg (by simp [h]), List.flatMap_cons, ih,
            Line.code_of_isComment h, List.nil_append]
      | false =>
          rw [List.filter_cons_of_pos (by simp [h]), List.flatMap_cons, List.flatMap_cons, ih]

/-! ### Lines without comments -/

@[simp] theorem uncommented_nil : uncommented [] = [] := rfl

@[simp] theorem uncommented_append (a b : List Line) :
    uncommented (a ++ b) = uncommented a ++ uncommented b := List.filter_append _ _

@[simp] theorem uncommented_nested (lines : List Line) :
    uncommented (nested lines) = nested (uncommented lines) := by
  rw [uncommented, nested, List.filter_map]
  rfl

section Congruence

variable {a b : List Line} (h : uncommented a = uncommented b)

include h

theorem uncommented_cons_congr (l : Line) : uncommented (l :: a) = uncommented (l :: b) := by
  show uncommented ([l] ++ a) = uncommented ([l] ++ b)
  rw [uncommented_append, uncommented_append, h]

theorem uncommented_enclosed_congr (opening closing : String) :
    uncommented (enclosed opening closing a) = uncommented (enclosed opening closing b) := by
  rw [enclosed, enclosed, uncommented_append, uncommented_append]
  refine congrArg (· ++ _) (uncommented_cons_congr ?_ _)
  rw [uncommented_nested, uncommented_nested, h]

end Congruence

theorem uncommented_flatMap {α : Type} (f : α → List Line) (items : List α) :
    uncommented (items.flatMap f) = items.flatMap fun x => uncommented (f x) :=
  List.filter_flatMap

theorem not_mem_of_mem_docLines {text : Option String} {doc : String} (h : doc ∈ docLines text) :
    '\n' ∉ doc.toList := by
  cases text with
  | none => cases h
  | some text =>
      obtain ⟨part, hpart, rfl⟩ := List.mem_map.mp h
      have split : part ∈ text.toList.splitOn '\n' := by
        unfold splitLines at hpart
        dsimp only at hpart
        split at hpart
        · exact (List.dropLast_sublist _).subset hpart
        · exact hpart
      rw [String.toList_ofList]
      intro feed
      refine not_mem_of_mem_splitOn part split ?_
      have ends := List.mem_reverse.mp ((List.dropWhile_sublist _).subset (List.mem_reverse.mp feed))
      exact (List.dropWhile_sublist _).subset ends

section Docs

variable (text : Option String)

/-- A text behind a marker of comments is a comment, line by line. -/
theorem uncommented_docs {marker : String} (comment : ['/', '/'] <+: marker.toList)
    (oneLine : '\n' ∉ marker.toList) :
    uncommented ((docLines text).map fun d => line (marker ++ d)) = [] := by
  refine List.filter_eq_nil_iff.mpr fun l hl => ?_
  obtain ⟨doc, hdoc, rfl⟩ := List.mem_map.mp hl
  have begins := List.isPrefixOf_iff_prefix.mpr (comment.trans (List.prefix_append _ doc.toList))
  have free : '\n' ∉ marker.toList ++ doc.toList := by
    rw [List.mem_append, not_or]
    exact ⟨oneLine, not_mem_of_mem_docLines hdoc⟩
  simp [Line.isComment, line, begins, free]

/-- **The comment before an item is no code.** -/
@[simp] theorem uncommented_outerDoc : uncommented (outerDoc (docLines text)) = [] :=
  uncommented_docs text (by decide) (by decide)

/-- **The comment at the start of a module is no code.** -/
@[simp] theorem uncommented_innerDoc : uncommented (innerDoc (docLines text)) = [] :=
  uncommented_docs text (by decide) (by decide)

end Docs

end ChipMap.Source
