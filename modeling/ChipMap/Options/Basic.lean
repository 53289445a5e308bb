/-!
# Options

The options say which peripherals are exported and how the produced source looks.  They come from a
text, from the arguments of the command line, or from both, and what neither gives is as in
`Options.default`.  An option changes the form of what is produced and the selection of peripherals,
and never the map itself.

* `Indentation`, `Visibility`, `Arrangement` — the choices, with the text that each of them puts
  into the source.
* `Options` — all options together, with `Options.default`.
-/

namespace ChipMap

/-- What one level of nesting puts at the start of a line.  No spaces at all are a choice too. -/
inductive Indentation where
  | tabs
  | spaces (count : Nat)
deriving DecidableEq, Repr, Inhabited

/-- The text of one level of nesting. -/
def Indentation.unit : Indentation → String
  | tabs => "\t"
  | spaces count => String.ofList (List.replicate count ' ')

/-- Who sees the modules and instances of peripherals.  What is inside a module is always public. -/
inductive Visibility where
  | everyone
  | crate
  | parent
  | nobody
deriving DecidableEq, Repr, Inhabited

/-- The words before an item of a visibility, with a space behind them.  An item that nobody else
sees has no words before it. -/
def Visibility.keyword : Visibility → String
  | everyone => "pub "
  | crate => "pub(crate) "
  | parent => "pub(super) "
  | nobody => ""

/-- How the produced source is split into files.  The items are the same in both arrangements. -/
inductive Arrangement where
  /-- One file holds everything. -/
  | combined
  /-- One file for each peripheral, and one that names them. -/
  | perPeripheral
deriving DecidableEq, Repr, Inhabited

def Arrangement.label : Arrangement → String
  | combined => "combined"
  | perPeripheral => "per-peripheral"

/-- What is exported, and how.  Every combination of values is valid. -/
structure Options where
  indentation : Indentation
  visibility : Visibility
  /-- The names of the peripherals to export; without a name all are exported. -/
  selected : List String
  /-- Whether the instances of peripherals belong to a type that is named after the device. -/
  namespaceUnderDevice : Bool
  /-- Whether those instances are fields of a value of the type, and not constants. -/
  instanceMembers : Bool
  /-- A name that is used in place of the name of the device. -/
  deviceName : Option String
  arrangement : Arrangement
deriving DecidableEq, Repr, Inhabited

/-- Four spaces, public items, every peripheral, free instances and one file. -/
def Options.default : Options where
  indentation := .spaces 4
  visibility := .everyone
  selected := []
  namespaceUnderDevice := false
  instanceMembers := false
  deviceName := none
  arrangement := .combined

end ChipMap
