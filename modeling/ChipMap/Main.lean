import ChipMap.Command.Run

/-!
# The command

The command line program.  What it reads and writes is decided by the plan of a run; here files and
streams are read, and the plan is carried out on the disk.

A file is written beside its place and moved there when it is complete, and no file is moved before
all are written.  The move of one file is a single step of the disk, but the moves of several files
are not: a move that fails leaves the files before it in their places.

* `readSources` — the files that some arguments name.
* `putFiles` — files at their paths.
* `carryOut` — a plan on the disk.
* `main` — the program.
-/

namespace ChipMap.Command

open Storage (Path Effect DeliveryFault outcomeOf)

/-- The contents of a file, if it can be read. -/
def readFile? (path : Path) : IO (Option String) := do
  try
    return some (← IO.FS.readFile path.text)
  catch _ =>
    return none

/-- What is left of a stream. -/
partial def readStream (stream : IO.FS.Stream) (text : String) : IO String := do
  let line ← stream.getLine
  if line.isEmpty then return text else readStream stream (text ++ line)

/-- The files that some arguments name and that can be read.  A file that cannot be read is left
out, and the plan reports it. -/
def readSources (a : Arguments) : IO (List (Path × String)) := do
  let paths := a.config.toList ++ (if a.source.isDash then [] else [a.source])
  let sources ← paths.mapM fun path => do
    return (← readFile? path).map fun text => (path, text)
  return sources.filterMap id

/-- Carries out an action, and tells whether it succeeded. -/
def succeeds (action : IO Unit) : IO Bool := do
  try
    action
    return true
  catch _ =>
    return false

/-- A file that is written beside its place. -/
structure Staged where
  target : Path
  /-- Where the file is now. -/
  place : String

/-- Takes away files that did not get to their places. -/
def discard (files : List Staged) : IO Unit :=
  files.forM fun file => discardOne file.place
where
  discardOne (place : String) : IO Unit := do
    let _ ← succeeds (IO.FS.removeFile place)

/-- Writes files beside their places.  The first path at which that fails is an error, and what was
written so far is taken away. -/
def stageFiles (staged : List Staged) : List (Path × String) → IO (Except Path (List Staged))
  | [] => return .ok staged
  | (path, contents) :: rest => do
    let place := path.text ++ "." ++ toString staged.length ++ ".part"
    if ← succeeds (IO.FS.writeFile place contents) then
      stageFiles (staged ++ [⟨path, place⟩]) rest
    else
      discard staged
      return .error path

/-- Moves files to their places.  The first that cannot be moved ends the work; it and those behind
it are taken away, and those before it stay. -/
def moveFiles : List Staged → IO (Option Path)
  | [] => return none
  | file :: rest => do
    if ← succeeds (IO.FS.rename file.place file.target.text) then moveFiles rest
    else
      discard (file :: rest)
      return some file.target

/-- Puts files at their paths.  The result is the path that ended the work. -/
def putFiles (targets : List (Path × String)) : IO (Option Path) := do
  match ← stageFiles [] targets with
  | .error path => return some path
  | .ok staged => moveFiles staged

/-- The text of the path of a directory, which may be the directory where the program runs. -/
def directoryText (directory : Path) : String :=
  if directory.text.isEmpty then "." else directory.text

/-- Makes all directories of a path, and tells whether they are there. -/
def makeDirectories (directory : Path) : IO Bool := do
  if ← succeeds (IO.FS.createDirAll (directoryText directory.parent)) then
    -- The directory has to be there when its path ends in a dot.
    if directory.endsInDot then
      succeeds do
        let _ ← IO.FS.realPath directory.text
    else succeeds (IO.FS.createDirAll (directoryText directory))
  else return false

/-- Does what a delivery does. -/
def carryOutEffect : Effect → IO (Except DeliveryFault Unit)
  | .print text => do
    IO.print text
    return .ok ()
  | .put targets => return outcomeOf (← putFiles targets)
  | .fill directory targets => do
    if ← makeDirectories directory then
      return outcomeOf (← putFiles targets)
    else return .error (.blocked directory)
  | .collect _ => return .ok ()

/-- Carries out a plan.  The order is that of `Plan.perform`: the record first, then the produced
files. -/
def carryOut (p : Plan) : IO (Except Fault Unit) := do
  match outcomeOf (← putFiles p.record.toList), p.effect with
  | .error fault, _ => return .error (.delivery fault)
  | .ok (), .error fault => return .error fault
  | .ok (), .ok effect => return (← carryOutEffect effect).mapError .delivery

/-- Runs the program with some arguments. -/
def runProgram (a : Arguments) : IO Ending := do
  let input ← if a.source.isDash then readStream (← IO.getStdin) "" else pure ""
  let sources ← readSources a
  match planOf a (fun path => sources.lookup path) input with
  | .error fault => return .failure fault
  | .ok plan =>
    match ← carryOut plan with
    | .error fault => return .failure fault
    | .ok () => return .success

end ChipMap.Command

/-- The program: it runs a command line and reports how the run ended. -/
def main (args : List String) : IO UInt32 := do
  let ending ←
    match ChipMap.Command.Arguments.ofList args with
    | .error reason =>
      IO.print reason.printed
      pure (ChipMap.Command.Ending.stopped reason)
    | .ok a => ChipMap.Command.runProgram a
  IO.eprint ending.complaint
  return ending.code
