import ChipMap.Proofs.Source.OneLine

/-!
# One file or a file each

The modules of a map are arranged in one file, or in a file each beside one that declares them.
**Both arrangements hold the same texts** (`exportMap_arranged`): the file with all modules holds
between head and pointers what the file of each module holds behind its head, with every line
indented once more, and the pointers are those of the file that declares the modules.

### What is load-bearing

The text inside a module is indented after it was rendered (`indentText`), and its lines are those
of the text and not those of the source.  They are the same because every line of a module becomes
one line of text that is not empty (`items_oneLine`), so the lemma about nesting
(`indentText_renderLines`) needs nothing of the map.

The head and the pointers are never indented, and are compared as whole texts.  So it does not
matter that the vendor of a device may put line feeds into the head.
-/

namespace ChipMap.Source

open Map (Device Peripheral)

/-! ### Indenting a text -/

/-- A text with a unit of indentation before every line of it.  This is said of the characters of
the text, with no knowledge of the lines it was rendered from. -/
def indentText (unit text : String) : String :=
  String.join ((splitLines text.toList).map fun l => unit ++ String.ofList l ++ "\n")

theorem splitLines_nil : splitLines [] = [] := by decide

/-- **A line feed parts the lines before it from those behind it.** -/
theorem splitLines_append (before rest : List Char) :
    splitLines (before ++ '\n' :: rest) = before.splitOn '\n' ++ splitLines rest := by
  have parts : (before ++ '\n' :: rest).splitOn '\n' =
      before.splitOn '\n' ++ rest.splitOn '\n' := List.splitOn_append_cons_self ..
  have some : rest.splitOn '\n' ≠ [] := by
    rw [List.splitOn_eq_splitOnP]
    exact List.splitOnP_ne_nil _ rest
  have last : (before.splitOn '\n' ++ rest.splitOn '\n').getLast? =
      (rest.splitOn '\n').getLast? := List.getLast?_append_of_ne_nil _ some
  unfold splitLines
  dsimp only
  rw [parts, last, List.dropLast_append_of_ne_nil some]
  split <;> rfl

theorem not_mem_chars {l : Line} (h : OneLine l.text) (indentation : Indentation) :
    '\n' ∉ l.chars indentation.unit := by
  unfold Line.chars
  split
  · exact List.not_mem_nil
  · rw [List.mem_append, not_or]
    refine ⟨fun feed => ?_, h⟩
    obtain ⟨unit, hunit, feed⟩ := List.mem_flatMap.mp feed
    obtain rfl := List.eq_of_mem_replicate hunit
    exact (margin_blank indentation _ feed).2 rfl

/-- **The lines of a rendered text** are those that it was rendered from. -/
theorem splitLines_renderLines {lines : List Line} (h : ∀ l ∈ lines, OneLine l.text)
    (indentation : Indentation) :
    splitLines (renderLines indentation.unit lines).toList =
      lines.map (Line.chars indentation.unit) := by
  induction lines with
  | nil => exact splitLines_nil
  | cons l rest ih =>
      obtain ⟨oneLine, others⟩ := List.forall_mem_cons.mp h
      rw [renderLines_cons, String.toList_append, toList_render, List.append_assoc,
        List.singleton_append, splitLines_append, ih others,
        List.splitOn_eq_singleton (not_mem_chars oneLine indentation), List.map_cons,
        List.singleton_append]

/-- One level deeper, a line that is not blank has one unit more. -/
theorem render_deeper {l : Line} (some : l.text ≠ "") (unit : String) :
    Line.render unit { l with depth := l.depth + 1 } =
      unit ++ String.ofList (l.chars unit) ++ "\n" := by
  have filled : l.text.isEmpty = false := by simpa using some
  refine String.toList_inj.mp ?_
  rw [toList_render, Line.chars, Line.chars, filled]
  simp [List.replicate_succ]

/-- **Lines that are nested are indented as a text**, when each becomes one line of text. -/
theorem indentText_renderLines {lines : List Line} (h : OneLiners lines)
    (indentation : Indentation) :
    indentText indentation.unit (renderLines indentation.unit lines) =
      renderLines indentation.unit (nested lines) := by
  have lined := splitLines_renderLines (fun l hl => (h l hl).2) indentation
  rw [indentText, lined, renderLines, nested, List.map_map, List.map_map]
  refine congrArg String.join (List.map_congr_left fun l hl => ?_)
  exact (render_deeper (h l hl).1 indentation.unit).symm

/-! ### The texts of a map -/

section Texts

variable (o : Options)

/-- The text inside the module of a peripheral. -/
def insideText (p : Peripheral) : String :=
  renderLines o.indentation.unit (ModuleDecl.ofPeripheral p).items

/-- A module in a file with others: a blank line, and the module with its text indented. -/
def moduleText (p : Peripheral) : String :=
  "\n" ++ (o.visibility.keyword ++ "mod " ++ Name.snakeCase p.name ++ " \x7b\n") ++
    indentText o.indentation.unit (insideText o p) ++ "\x7d\n"

/-- The declaration of a module that has a file of its own. -/
def declarationText (p : Peripheral) : String :=
  o.visibility.keyword ++ "mod " ++ Name.snakeCase p.name ++ ";\n"

/-- The text that begins every file. -/
def headText (d : Device) : String := renderLines o.indentation.unit (header d)

/-- The text of the pointers to the structs. -/
def pointersText (d : Device) (ps : List Peripheral) : String :=
  renderLines o.indentation.unit (pointerLines d o ps)

/-- **The lines of a module in a file with others.** -/
theorem renderLines_inlineModule (p : Peripheral) :
    renderLines o.indentation.unit (inlineModule o.visibility.keyword p) = moduleText o p := by
  have opening : o.visibility.keyword ++ "mod " ++ Name.snakeCase p.name ++ " \x7b" ≠ "" := by
    simp +decide
  have inside := indentText_renderLines (items_oneLine p) o.indentation
  have closing : renderLines o.indentation.unit [line "\x7d"] = "\x7d\n" := by
    rw [renderLines_cons, render_line (by decide)]
    rfl
  rw [inlineModule, enclosed, renderLines_cons, render_blank, List.cons_append, renderLines_cons,
    ofPeripheral_name, render_line opening, renderLines_append, ← inside, closing]
  simp only [moduleText, insideText, String.append_assoc]
  rfl

theorem render_declaration (p : Peripheral) :
    (line (o.visibility.keyword ++ "mod " ++ Name.snakeCase p.name ++ ";")).render
      o.indentation.unit = declarationText o p := by
  rw [render_line (by simp +decide), declarationText]
  simp only [String.append_assoc]
  rfl

end Texts

/-! ### Both arrangements -/

/-- **The files of some peripherals in both arrangements**, with their names and their whole
texts. -/
structure Arranged (d : Device) (o : Options) (ps : List Peripheral) : Prop where
  /-- Both hold the selected peripherals. -/
  selected : select d o.selected = .ok ps
  /-- One file with all modules. -/
  combined : exportMap d { o with arrangement := .combined } =
    .ok [⟨fileName (Name.snakeCase (deviceNameOf d o)),
      headText o d ++ String.join (ps.map (moduleText o)) ++ pointersText o d ps⟩]
  /-- A file that declares the modules, and one for each of them. -/
  perPeripheral : exportMap d { o with arrangement := .perPeripheral } =
    .ok (⟨"mod.rs",
        headText o d ++ "\n" ++ String.join (ps.map (declarationText o)) ++ pointersText o d ps⟩ ::
      ps.map fun p => ⟨fileName (Name.snakeCase p.name), headText o d ++ "\n" ++ insideText o p⟩)

theorem renderLines_combined (d : Device) (o : Options) (ps : List Peripheral) :
    renderLines o.indentation.unit (combinedLines d o ps) =
      headText o d ++ String.join (ps.map (moduleText o)) ++ pointersText o d ps := by
  have modules (p : Peripheral) := renderLines_inlineModule o p
  rw [combinedLines, renderLines_append, renderLines_append, renderLines_flatMap]
  simp only [modules]
  rfl

theorem renderLines_root (d : Device) (o : Options) (ps : List Peripheral) :
    renderLines o.indentation.unit (rootLines d o ps) =
      headText o d ++ "\n" ++ String.join (ps.map (declarationText o)) ++ pointersText o d ps := by
  have declared : renderLines o.indentation.unit (ps.map fun p =>
      line (o.visibility.keyword ++ "mod " ++ Name.snakeCase p.name ++ ";")) =
      String.join (ps.map (declarationText o)) := by
    rw [renderLines, List.map_map]
    exact congrArg String.join (List.map_congr_left fun p _ => render_declaration o p)
  rw [rootLines, renderLines_append, renderLines_append, renderLines_cons, render_blank, declared]
  simp only [String.append_assoc]
  rfl

theorem renderLines_module (d : Device) (o : Options) (p : Peripheral) :
    renderLines o.indentation.unit (moduleLines d p) =
      headText o d ++ "\n" ++ insideText o p := by
  rw [moduleLines, renderLines_append, renderLines_cons, render_blank, String.append_assoc]
  rfl

/-- **Both arrangements agree**: either fails with the fault of the other, or both hold the same
texts of the same peripherals.  Nothing is assumed of the map. -/
theorem exportMap_arranged (d : Device) (o : Options) :
    (∃ fault, ∀ arrangement, exportMap d { o with arrangement } = .error fault) ∨
      ∃ ps, Arranged d o ps := by
  cases selected : select d o.selected with
  | error fault =>
      refine .inl ⟨fault, fun arrangement => ?_⟩
      rw [exportMap_eq, selected]
      rfl
  | ok ps =>
      have files (arrangement : Arrangement) : exportMap d { o with arrangement } =
          .ok ((fileLines d { o with arrangement } ps).map (FileLines.render o.indentation.unit)) := by
        rw [exportMap_eq, selected]
        rfl
      refine .inr ⟨ps, selected, (files .combined).trans ?_, (files .perPeripheral).trans ?_⟩
      · rw [← renderLines_combined]
        rfl
      · have modules (p : Peripheral) := (renderLines_module d o p).symm
        rw [← renderLines_root]
        simp only [modules, fileLines, List.map_cons, List.map_map]
        rfl

end ChipMap.Source
