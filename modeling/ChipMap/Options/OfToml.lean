import ChipMap.Options.Basic
import ChipMap.Toml.Reader

/-!
# Options from a text

The options of a text override the default ones.  A key that is no option, or a value that is none
of its option, makes the whole text invalid: an option that is misspelled would else be passed over
in silence.

* `choice?` — a value that names one of several choices.
* `Indentation.ofValue?` — an indentation, which is a choice or a number of spaces.
* `Options.set?` — options with the value of a key.
* `Options.ofText?` — the options that a text gives.

### What is load-bearing

Entries are taken in their order, and each of them sets one field of the options.  A key is there
once in the entries of a text, so the order has no effect on the options that are given.
-/

namespace ChipMap

open Toml (Value Entries)

/-- The choice that a value names: by a text, or by the only key of a table, with an empty table or
list as its value. -/
def choiceName? : Value → Option String
  | .text name => some name
  | .table _ [(name, .table _ [])] => some name
  | .table _ [(name, .list [])] => some name
  | _ => none

/-- The choice that a value names, among choices with their names. -/
def choice? {α : Type} (choices : List (String × α)) (v : Value) : Option α := do
  choices.lookup (← choiceName? v)

/-- An indentation is tabs, or a number of spaces, which is written as a table and is not below
zero. -/
def Indentation.ofValue? : Value → Option Indentation
  | .table _ [("spaces", .integer n)] => if 0 ≤ n then some (.spaces n.toNat) else none
  | v => choice? [("tabs", .tabs)] v

def Visibility.choices : List (String × Visibility) :=
  [("public", .everyone), ("crate", .crate), ("super", .parent), ("private", .nobody)]

def Arrangement.choices : List (String × Arrangement) :=
  [Arrangement.combined, .perPeripheral].map fun a => (a.label, a)

def textOf? : Value → Option String
  | .text s => some s
  | _ => none

/-- The texts that the items of a list are. -/
def textsOf? : Value → Option (List String)
  | .list items => items.mapM textOf?
  | _ => none

def booleanOf? : Value → Option Bool
  | .boolean b => some b
  | _ => none

/-- The options with the value of a key, if the key is an option and has such a value.  Every option
but this one stays. -/
def Options.set? (o : Options) (key : String) (v : Value) : Option Options :=
  match key with
  | "indentation" => (Indentation.ofValue? v).map fun indentation => { o with indentation }
  | "access-level" => (choice? Visibility.choices v).map fun visibility => { o with visibility }
  | "selected-peripherals" => (textsOf? v).map fun selected => { o with selected }
  | "namespace-under-device" =>
    (booleanOf? v).map fun namespaceUnderDevice => { o with namespaceUnderDevice }
  | "instance-member-peripherals" =>
    (booleanOf? v).map fun instanceMembers => { o with instanceMembers }
  | "override-device-name" => (textOf? v).map fun name => { o with deviceName := some name }
  | "layout" => (choice? Arrangement.choices v).map fun arrangement => { o with arrangement }
  | _ => none

/-- The options that entries give, over the default ones. -/
def Options.ofEntries? (entries : Entries) : Option Options :=
  entries.foldlM (fun o e => o.set? e.1 e.2) Options.default

/-- The options that a text gives. -/
def Options.ofText? (text : String) : Option Options := do
  Options.ofEntries? (← Toml.read? text)

end ChipMap
