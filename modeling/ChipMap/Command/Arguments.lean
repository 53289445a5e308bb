import ChipMap.Numeral.Scaled
import ChipMap.Options.Basic
import ChipMap.Storage.Path

/-!
# Command lines

A command line names the command `svd-gen` and gives its flags and settings.  Flags and settings
have long names behind two dashes, and some have a letter behind one dash.  The value of a setting
is the next argument, or it is written behind an equals sign or behind the letter.  Only the setting
`peripherals` takes several values, and only it may be given more than once.

The arguments are read from the left, and the first one that is wrong ends the reading; so does a
request for help or for the version.

* `Flag`, `Setting` — what a command line can give.
* `Arguments` — what it gave.
* `Stop` — why there are no arguments.
* `Vocabulary` — the names that are known at a place of the command line.
* `readOptions`, `Arguments.ofList` — the arguments of a command line.
* `Arguments.apply` — the options that a command line gives.

### What is load-bearing

Whether an argument is a value depends on the argument alone, and not on what is awaited.  An
argument that begins with a dash, the dash alone aside, is never the value of a setting in front of
it; such a value has to stand behind an equals sign or behind the letter.

A flag can only be raised, and it may be raised once on either side of the command.
-/

namespace ChipMap.Command

open Storage (Path)

/-- What is given by its name alone, without a value. -/
inductive Flag where
  | verbose
  | indentUsingTabs
  | namespaceUnderDevice
  | instanceMembers
  | perPeripheral
deriving DecidableEq, Repr, Inhabited

/-- What is given with a value: a path, a name, a number or one of a few words. -/
inductive Setting where
  | input
  | output
  | peripherals
  | visibility
  | indentationWidth
  | deviceName
  | config
  | dump
deriving DecidableEq, Repr, Inhabited

/-- Whether a setting takes any number of values.  Values may then follow each other, and each may
name several things between commas. -/
def Setting.takesMany (s : Setting) : Bool := s == .peripherals

/-- What a command line gave.  An absent part was not given, and what then counts is decided
elsewhere. -/
structure Arguments where
  flags : List Flag
  /-- The description to read. -/
  input : Option Path
  /-- Where the produced files go. -/
  output : Option Path
  /-- The names of the peripherals to export. -/
  peripherals : List String
  visibility : Option Visibility
  /-- The number of spaces of one level of nesting. -/
  indentationWidth : Option Nat
  deviceName : Option String
  /-- A file with options. -/
  config : Option Path
  /-- Where the record of the map goes. -/
  dump : Option Path
deriving DecidableEq, Repr, Inhabited

def Arguments.none : Arguments where
  flags := []
  input := Option.none
  output := Option.none
  peripherals := []
  visibility := Option.none
  indentationWidth := Option.none
  deviceName := Option.none
  config := Option.none
  dump := Option.none

/-- Why a command line gives no arguments. -/
inductive Stop where
  /-- The command line is not written as it should be. -/
  | misuse
  /-- Help is asked for. -/
  | help
  /-- The version is asked for. -/
  | version
deriving DecidableEq, Repr, Inhabited

/-- The arguments with a flag, which may be given once. -/
def Arguments.raise (a : Arguments) (f : Flag) : Except Stop Arguments :=
  if a.flags.contains f then .error .misuse else .ok { a with flags := a.flags ++ [f] }

/-- The value of a setting that may be given once. -/
def once {α : Type} (given value : Option α) : Except Stop (Option α) :=
  match given, value with
  | Option.none, some v => .ok (some v)
  | _, _ => .error .misuse

def path? (text : String) : Option Path :=
  if text.isEmpty then Option.none else some ⟨text⟩

/-- The visibilities by their names on a command line. -/
def visibilityNames : List (String × Visibility) :=
  [("pub", .everyone), ("crate", .crate), ("super", .parent), ("private", .nobody)]

/-- The names in a value, which stand between commas. -/
def peripheralNames (text : String) : List String :=
  (text.toList.splitOn ',').map String.ofList

/-- The arguments with a value of a setting.  The value is checked here, so a setting that is there
has a value of its kind. -/
def Arguments.put (a : Arguments) (s : Setting) (text : String) : Except Stop Arguments := do
  match s with
  | .input => return { a with input := ← once a.input (path? text) }
  | .output => return { a with output := ← once a.output (path? text) }
  | .peripherals => return { a with peripherals := a.peripherals ++ peripheralNames text }
  | .visibility => return { a with visibility := ← once a.visibility (visibilityNames.lookup text) }
  | .indentationWidth =>
    return { a with
      indentationWidth := ← once a.indentationWidth (Numeral.decimal? text.toList) }
  | .deviceName => return { a with deviceName := ← once a.deviceName (some text) }
  | .config => return { a with config := ← once a.config (path? text) }
  | .dump => return { a with dump := ← once a.dump (path? text) }

/-- What a name on the command line asks for. -/
inductive Keyword where
  | flag (f : Flag)
  | setting (s : Setting)
  | stop (reason : Stop)
deriving DecidableEq, Repr, Inhabited

/-- The names that are known at a place of the command line: in front of the command, or behind
it. -/
structure Vocabulary where
  /-- The names behind two dashes. -/
  long : List (String × Keyword)
  /-- The letters behind one dash. -/
  short : List (Char × Keyword)
deriving Repr, Inhabited

/-- The names that are known in front of the command. -/
def Vocabulary.front : Vocabulary where
  long := [("verbose", .flag .verbose), ("help", .stop .help), ("version", .stop .version)]
  short := [('v', .flag .verbose), ('h', .stop .help), ('V', .stop .version)]

/-- The names that are known behind the command. -/
def Vocabulary.command : Vocabulary where
  long :=
    [("verbose", .flag .verbose), ("help", .stop .help),
      ("input", .setting .input), ("output", .setting .output),
      ("peripherals", .setting .peripherals), ("access-level", .setting .visibility),
      ("indent-using-tabs", .flag .indentUsingTabs),
      ("indentation-width", .setting .indentationWidth),
      ("namespace-under-device", .flag .namespaceUnderDevice),
      ("instance-member-peripherals", .flag .instanceMembers),
      ("device-name", .setting .deviceName), ("per-peripheral", .flag .perPeripheral),
      ("config", .setting .config), ("dump-ir", .setting .dump)]
  short :=
    [('v', .flag .verbose), ('h', .stop .help), ('i', .setting .input), ('o', .setting .output)]

/-- What may follow an argument: no value, one that has to follow, or more values of a setting. -/
inductive Awaiting where
  /-- No value. -/
  | nothing
  /-- A value of a setting has to follow. -/
  | value (s : Setting)
  /-- More values of a setting may follow. -/
  | more (s : Setting)
deriving DecidableEq, Repr, Inhabited

/-- Whether the command line may not end, and no other name may follow, before a value. -/
def Awaiting.isOpen : Awaiting → Bool
  | value _ => true
  | _ => false

/-- Whether an argument is a value: it does not begin with a dash, or it is a dash alone. -/
def isValue (arg : String) : Bool :=
  arg == "-" || arg.toList.head? != some '-'

/-- Reads a name behind two dashes, with a value behind an equals sign or without one. -/
def readLong (v : Vocabulary) (a : Arguments) (cs : List Char) :
    Except Stop (Arguments × Awaiting) := do
  let name := String.ofList (cs.takeWhile (· != '='))
  match v.long.lookup name, cs.dropWhile (· != '=') with
  | some (.flag f), [] => return (← a.raise f, .nothing)
  | some (.stop reason), [] => throw reason
  | some (.setting s), [] => return (a, .value s)
  | some (.setting s), _ :: text => return (← a.put s (String.ofList text), .nothing)
  | _, _ => throw .misuse

/-- Reads letters behind one dash.  Flags may stand together behind it; what follows the letter of a
setting is its value. -/
def readShort (v : Vocabulary) (a : Arguments) : List Char → Except Stop (Arguments × Awaiting)
  | [] => .ok (a, .nothing)
  | c :: rest =>
    match v.short.lookup c, rest with
    | some (.flag f), _ => do readShort v (← a.raise f) rest
    | some (.stop reason), _ => .error reason
    | some (.setting s), [] => .ok (a, .value s)
    | some (.setting s), '=' :: text => do return (← a.put s (String.ofList text), .nothing)
    | some (.setting s), text => do return (← a.put s (String.ofList text), .nothing)
    | Option.none, _ => .error .misuse

/-- Reads an argument that begins with a dash. -/
def readNamed (v : Vocabulary) (a : Arguments) (arg : String) :
    Except Stop (Arguments × Awaiting) :=
  match arg.toList with
  | '-' :: '-' :: name => readLong v a name
  | '-' :: letters => readShort v a letters
  | _ => .error .misuse

/-- What may follow a value of a setting. -/
def Awaiting.afterValue (s : Setting) : Awaiting :=
  if s.takesMany then .more s else .nothing

/-- Reads the arguments behind the command.  Nothing may follow two dashes alone.  The recursion is
on the arguments that are left, and `awaiting` says what the last one has opened. -/
def readOptions (a : Arguments) (awaiting : Awaiting) : List String → Except Stop Arguments
  | [] => if awaiting.isOpen then .error .misuse else .ok a
  | arg :: rest => do
    if isValue arg then
      match awaiting with
      | .nothing => throw .misuse
      | .value s | .more s => readOptions (← a.put s arg) (.afterValue s) rest
    else if awaiting.isOpen then throw .misuse
    else if arg = "--" then
      -- Behind two dashes only plain arguments may stand, and the command takes none.
      if rest.isEmpty then return a else throw .misuse
    else
      let (given, next) ← readNamed .command a arg
      readOptions given next rest

/-- Reads a whole command line.  A flag in front of the command counts for the command, and may be
given behind it as well. -/
def readFront (a : Arguments) : List String → Except Stop Arguments
  | [] => .error .misuse
  | arg :: rest => do
    if arg = "svd-gen" then
      let given ← readOptions .none .nothing rest
      return { given with flags := a.flags ++ given.flags }
    else if arg = "help" then
      throw (if [[], ["svd-gen"], ["help"]].contains rest then .help else .misuse)
    else
      let (given, _) ← readNamed .front a arg
      readFront given rest

/-- The arguments of a command line.  The description to read has to be given; everything else may
be absent. -/
def Arguments.ofList (args : List String) : Except Stop Arguments := do
  let given ← readFront .none args
  if given.input.isNone then throw .misuse else return given

/-- The options that a command line gives: those of `o`, with what the command line has given in
their place.  Tabs on the command line are preferred to any number of spaces. -/
def Arguments.apply (a : Arguments) (o : Options) : Options where
  indentation :=
    if a.flags.contains .indentUsingTabs then .tabs
    else (a.indentationWidth.map Indentation.spaces).getD o.indentation
  visibility := a.visibility.getD o.visibility
  selected := if a.peripherals.isEmpty then o.selected else a.peripherals
  namespaceUnderDevice := o.namespaceUnderDevice || a.flags.contains .namespaceUnderDevice
  instanceMembers := o.instanceMembers || a.flags.contains .instanceMembers
  deviceName := a.deviceName.orElse fun _ => o.deviceName
  arrangement := if a.flags.contains .perPeripheral then .perPeripheral else o.arrangement

end ChipMap.Command
