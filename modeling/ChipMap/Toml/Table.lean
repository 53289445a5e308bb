/-!
# Tables of options

Options are written as a text in the TOML format.  Only those values are kept here that an option
can have: texts, integers, truth values, lists and tables.  A table is defined once; how it was
begun decides what may be added to it later.

* `TableForm` — how a table was begun.
* `Value`, `Entries` — values, and the entries of a table.
* `Statement` — a line of the text.
* `define?` — a table with a value put under a dotted key.
* `openHeader?` — a table with a table of its own for a header.
* `ofStatements?` — the table that statements define.

### What is load-bearing

That a key is there once is kept by every step and is no field of a type.  A value is put under a
key only where the key is new (`define?`), and a table that is opened twice is refused unless its
first opening was only implied by that of a table inside it (`openHeader?`).  A key that is dotted
leads through tables that dotted keys began and through no other, so a table is either written in
one place or made of dotted keys.
-/

namespace ChipMap.Toml

/-- How a table was begun.  A table that a header of an inner table implied may still get a header
of its own; one in braces is complete. -/
inductive TableForm where
  /-- By a header of its own. -/
  | header
  /-- By the header of a table inside it. -/
  | implied
  /-- By a dotted key. -/
  | dotted
  /-- By braces in a line; nothing may be added to it. -/
  | inline
deriving DecidableEq, Repr, Inhabited

/-- A value of an option: a text, a truth value, a number, a list or a table. -/
inductive Value where
  | text (s : String)
  | integer (n : Int)
  | boolean (b : Bool)
  | list (items : List Value)
  | table (form : TableForm) (entries : List (String × Value))
deriving Repr, Inhabited

/-- The entries of a table; each key is there once. -/
abbrev Entries := List (String × Value)

/-- The entries with another value under a key that is there.  All other entries stay where they
are. -/
def replaceEntry (key : String) (value : Value) (entries : Entries) : Entries :=
  entries.map fun e => if e.1 == key then (key, value) else e

/-- The entries with a value under a new key.  All keys but the last lead through tables that dotted
keys began, or begin such tables. -/
def define? : List String → String → Value → Entries → Option Entries
  | [], key, value, entries =>
    if (entries.lookup key).isSome then none else some (entries ++ [(key, value)])
  | outer :: path, key, value, entries =>
    match entries.lookup outer with
    | none => do
      let inner ← define? path key value []
      some (entries ++ [(outer, .table .dotted inner)])
    | some (.table form inner) =>
      if form = .dotted ∨ (form = .implied ∧ !path.isEmpty) then do
        let inner ← define? path key value inner
        some (replaceEntry outer (.table form inner) entries)
      else none
    | some _ => none

/-- The entries with a table for a header.  A table that headers of inner tables implied may get its
own header; any other may not. -/
def openHeader? : List String → Entries → Option Entries
  | [], _ => none
  | [key], entries =>
    match entries.lookup key with
    | none => some (entries ++ [(key, .table .header [])])
    | some (.table .implied inner) => some (replaceEntry key (.table .header inner) entries)
    | some _ => none
  | outer :: path, entries =>
    match entries.lookup outer with
    | none => do
      let inner ← openHeader? path []
      some (entries ++ [(outer, .table .implied inner)])
    | some (.table form inner) =>
      if form = .inline then none
      else do
        let inner ← openHeader? path inner
        some (replaceEntry outer (.table form inner) entries)
    | some _ => none

/-- The entries with those of the table at a path changed.  The path leads through tables only. -/
def within? (change : Entries → Option Entries) : List String → Entries → Option Entries
  | [], entries => change entries
  | outer :: path, entries =>
    match entries.lookup outer with
    | some (.table form inner) => do
      let inner ← within? change path inner
      some (replaceEntry outer (.table form inner) entries)
    | _ => none

/-- A line of the text that is not blank. -/
inductive Statement where
  /-- What follows belongs to the table of a header. -/
  | header (path : List String)
  /-- A value under a dotted key. -/
  | entry (path : List String) (key : String) (value : Value)
deriving Repr, Inhabited

/-- The entries that statements define, when what follows belongs to the table at `current`.  The
first statement that defines something twice ends the reading. -/
def ofStatementsFrom? (current : List String) (entries : Entries) :
    List Statement → Option Entries
  | [] => some entries
  | .header path :: rest => do
    let entries ← openHeader? path entries
    ofStatementsFrom? path entries rest
  | .entry path key value :: rest => do
    let entries ← within? (define? path key value) current entries
    ofStatementsFrom? current entries rest

/-- The entries that statements define. -/
def ofStatements? (statements : List Statement) : Option Entries :=
  ofStatementsFrom? [] [] statements

end ChipMap.Toml
