import ChipMap.Command.Arguments
import ChipMap.Map.OfText
import ChipMap.Options.OfToml
import ChipMap.Storage.Delivery

/-!
# Running a command line

A run reads the options and the description, lays the map out, and then writes.  What is to be
written is fixed as a plan before anything is written, so a fault of the options, of the description
or of the map leaves every file as it is.  The record of the map is written before the export is
asked for: an export that fails does not take it back.

* `Fault` — why a run fails, with `Fault.report`.
* `optionsOf` — the options of a run.
* `Plan`, `planOf`, `Plan.perform` — what a run writes.
* `Report`, `run` — the outcome of a command line.

### What is load-bearing

A plan is made from a function that gives the contents of files, be they in a tree or on a disk.
The program makes its plans with `planOf` as `runArguments` does, and only carries them out in
another way.

The produced files stand in the plan as an outcome, not as a list: an unknown peripheral is a fault
of the plan only when the plan is performed, which is after the record was put.
-/

namespace ChipMap.Command

open Storage (Path FileTree Destination DeliveryFault Effect Outlets)
open Source (SourceFile ExportFault)
open Map (Checked ChipFault)

/-- Why a run fails.  A fault of the command line is none of these, as it ends the run before there
is one. -/
inductive Fault where
  /-- The file at a path cannot be read. -/
  | unreadable (path : Path)
  /-- The file at a path gives no options. -/
  | options (path : Path)
  /-- The description has no map. -/
  | chip (fault : ChipFault)
  /-- The map is not exported as asked. -/
  | selection (fault : ExportFault)
  /-- Something cannot be written. -/
  | delivery (fault : DeliveryFault)
deriving DecidableEq, Repr, Inhabited

/-- The wording of a fault. -/
def Fault.message : Fault → String
  | unreadable path => path.text ++ ": cannot be read"
  | options path => "invalid config " ++ path.text
  | chip fault => fault.message
  | selection fault => fault.message
  | delivery fault => fault.message

/-- The wording of what is behind a fault: a value that is none of its kind.  No other fault has a
cause of its own. -/
def Fault.cause? : Fault → Option String
  | chip (.document (.invalid _ cause)) => some cause.message
  | _ => none

/-- A fault is reported on one line, with its cause behind it. -/
def Fault.report (f : Fault) : String :=
  "Error: " ++ String.intercalate ": " (f.message :: f.cause?.toList) ++ "\n"

/-- The options that the file at a path gives. -/
def optionsAt (read : Path → Option String) (path : Path) : Except Fault Options :=
  match read path with
  | none => .error (.unreadable path)
  | some text =>
    match Options.ofText? text with
    | none => .error (.options path)
    | some o => .ok o

/-- The checked map of the description at a path. -/
def mapAt (read : Path → Option String) (path : Path) : Except Fault Checked :=
  match read path with
  | none => .error (.unreadable path)
  | some text => (Map.ofText text).mapError .chip

/-- The options of a run: those of a file or the default ones, and over them those of the command
line. -/
def optionsOf (a : Arguments) (read : Path → Option String) : Except Fault Options := do
  match a.config with
  | none => return a.apply .default
  | some path => return a.apply (← optionsAt read path)

/-- The path that stands for the standard streams. -/
def dash : Path := ⟨"-"⟩

/-- The path of the description, which a command line always gives. -/
def Arguments.source (a : Arguments) : Path := a.input.getD dash

/-- Where the produced files of a run go. -/
def Arguments.destination (a : Arguments) : Destination :=
  .ofPath (a.output.getD dash)

/-- What a run writes.  Nothing in it depends on a tree, apart from the contents of the files that
were read. -/
structure Plan where
  /-- The record of the map and its path, if it is asked for. -/
  record : Option (Path × String)
  /-- The produced files. -/
  files : Except ExportFault (List SourceFile)
  /-- Where they go. -/
  destination : Destination
deriving Repr

/-- The plan of a run.  The options are read first, so a wrong file of options is reported before a
wrong description.  The description is read from the standard input or from a file. -/
def planOf (a : Arguments) (read : Path → Option String) (input : String) : Except Fault Plan := do
  let options ← optionsOf a read
  let checked ← mapAt (fun path => if path.isDash then some input else read path) a.source
  return {
    record := a.dump.map fun path => (path, checked.record.render)
    files := Source.exportMap checked.device options
    destination := a.destination }

/-- What becomes of the produced files.  A fault of the selection comes before one of the
destination. -/
def Plan.effect (p : Plan) : Except Fault Effect := do
  let files ← p.files.mapError .selection
  (p.destination.effect files).mapError .delivery

/-- The outlets after a plan is performed.  The second result says whether all of the plan was
done. -/
def Plan.perform (p : Plan) (o : Outlets) : Outlets × Except Fault Unit :=
  let (recorded, outcome) := (Effect.put p.record.toList).perform o
  -- The record is written first: a fault of the produced files leaves it in place.
  match outcome, p.effect with
  | .error fault, _ => (recorded, .error (.delivery fault))
  | .ok (), .error fault => (recorded, .error fault)
  | .ok (), .ok effect =>
    let (after, delivered) := effect.perform recorded
    (after, delivered.mapError .delivery)

/-- How a run ends: with success, with a fault, or without anything to run. -/
inductive Ending where
  | success
  | failure (fault : Fault)
  /-- There was nothing to run. -/
  | stopped (reason : Stop)
deriving DecidableEq, Repr, Inhabited

/-- The exit code of a run: zero if all went well, one for a fault and two for a command line that
is not written as it should be.  Help and the version are no failures. -/
def Ending.code : Ending → UInt32
  | success => 0
  | failure _ => 1
  | stopped .misuse => 2
  | stopped _ => 0

/-- How the command is used, as printed for help and for a command line that is not as it should
be. -/
def usage : String :=
  "Usage: cargo xtask [-v] svd-gen --input <INPUT> [OPTIONS]\n"

/-- The name and the version of the program. -/
def versionLine : String := "cargo xtask 0.1.0\n"

/-- What is printed for a request that is no run. -/
def Stop.printed : Stop → String
  | misuse => ""
  | help => usage
  | version => versionLine

/-- The text on the error stream when a run ends. -/
def Ending.complaint : Ending → String
  | success => ""
  | failure fault => fault.report
  | stopped .misuse => usage
  | stopped _ => ""

/-- The outcome of a command line. -/
structure Report where
  ending : Ending
  /-- The stored files and the printed text. -/
  outlets : Outlets
deriving DecidableEq, Repr, Inhabited

/-- The outcome of some arguments in a tree of files.  Nothing is written unless there is a plan. -/
def runArguments (a : Arguments) (input : String) (tree : FileTree) : Report :=
  let before : Outlets := ⟨tree, "", []⟩
  match planOf a tree.read? input with
  | .error fault => ⟨.failure fault, before⟩
  | .ok plan =>
    match plan.perform before with
    | (after, .ok ()) => ⟨.success, after⟩
    | (after, .error fault) => ⟨.failure fault, after⟩

/-- The outcome of a command line in a tree of files. -/
def run (args : List String) (input : String) (tree : FileTree) : Report :=
  match Arguments.ofList args with
  | .error reason => ⟨.stopped reason, ⟨tree, reason.printed, []⟩⟩
  | .ok a => runArguments a input tree

end ChipMap.Command
