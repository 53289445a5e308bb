import ChipMap.Text.Blank
import ChipMap.Numeral.Malformed

/-!
# Literals

Some attributes of a description have one of a few values.  Each value has the spellings that
documents use for it; a spelling in the exact case wins over one in another case.  Documents are
hand written and tools of vendors differ in their spellings, so case is forgiven where no exact
spelling fits.

* `LiteralTable` — the spellings of the values of a kind, with `LiteralTable.read`.
* `Access`, `WriteEffect`, `ReadEffect`, `Protection`, `Usage`, `BlockUsage` — the values, each with
  its table.

### What is load-bearing

All six kinds are read by one function from a table of their own.  Most tables are made of the names
of the values; those of accesses and protections are written out, since documents spell the former
in several ways and the latter by a letter.
-/

namespace ChipMap

/-- The spellings of the values of one kind.  A value may have several of them, and a spelling
stands for one value. -/
structure LiteralTable (α : Type) where
  /-- What a text is called that is none of the spellings. -/
  kind : ValueKind
  /-- The spellings with their values; the first match counts. -/
  spellings : List (String × α)

namespace LiteralTable

/-- Whether two texts are equal when the case of the letters of ASCII is ignored. -/
def sameLetters (a b : String) : Bool :=
  a.toList.map Char.toLower == b.toList.map Char.toLower

/-- The value of a spelling: that of the first equal spelling, or else of the first one that is
equal when case is ignored. -/
def find? {α : Type} (table : LiteralTable α) (word : String) : Option α :=
  match table.spellings.find? fun entry => entry.1 == word with
  | some entry => some entry.2
  | none => (table.spellings.find? fun entry => sameLetters entry.1 word).map Prod.snd

/-- The value that a text denotes, outer blanks aside. -/
def read {α : Type} (table : LiteralTable α) : String → Except Malformed α :=
  table.kind.read fun text => table.find? (Text.trim text)

end LiteralTable

/-- How a register or a field may be accessed.  What may be accessed once only is read and written
like the others here. -/
inductive Access where
  | readOnly
  | writeOnly
  | readWrite
  | writeOnce
  | readWriteOnce
deriving DecidableEq, Repr, Inhabited

namespace Access

def isReadable : Access → Bool
  | readOnly | readWrite | readWriteOnce => true
  | writeOnly | writeOnce => false

def isWritable : Access → Bool
  | readOnly => false
  | _ => true

def label : Access → String
  | readOnly => "read-only"
  | writeOnly => "write-only"
  | readWrite => "read-write"
  | writeOnce => "write-once"
  | readWriteOnce => "read-write-once"

/-- The spellings of documents.  The last two are those of some vendors. -/
def table : LiteralTable Access where
  kind := .access
  spellings :=
    [("read-only", readOnly), ("write-only", writeOnly), ("read-write", readWrite),
      ("writeOnce", writeOnce), ("read-writeOnce", readWriteOnce), ("write-once", writeOnce),
      ("write", writeOnly), ("read", readOnly)]

end Access

/-- What a write does to the stored value. -/
inductive WriteEffect where
  | oneToClear
  | oneToSet
  | oneToToggle
  | zeroToClear
  | zeroToSet
  | zeroToToggle
  | clear
  | set
  | modify
deriving DecidableEq, Repr, Inhabited

namespace WriteEffect

def label : WriteEffect → String
  | oneToClear => "oneToClear"
  | oneToSet => "oneToSet"
  | oneToToggle => "oneToToggle"
  | zeroToClear => "zeroToClear"
  | zeroToSet => "zeroToSet"
  | zeroToToggle => "zeroToToggle"
  | clear => "clear"
  | set => "set"
  | modify => "modify"

/-- Documents spell a write effect by its name. -/
def table : LiteralTable WriteEffect where
  kind := .writeEffect
  spellings :=
    [oneToClear, oneToSet, oneToToggle, zeroToClear, zeroToSet, zeroToToggle, clear, set,
      modify].map fun effect => (effect.label, effect)

end WriteEffect

/-- What a read does to the stored value. -/
inductive ReadEffect where
  | clear
  | set
  | modify
  | modifyExternal
deriving DecidableEq, Repr, Inhabited

namespace ReadEffect

def label : ReadEffect → String
  | clear => "clear"
  | set => "set"
  | modify => "modify"
  | modifyExternal => "modifyExternal"

/-- Documents spell a read effect by its name. -/
def table : LiteralTable ReadEffect where
  kind := .readEffect
  spellings := [clear, set, modify, modifyExternal].map fun effect => (effect.label, effect)

end ReadEffect

/-- Which software may access.  It is carried into the map and decides nothing there. -/
inductive Protection where
  | secure
  | nonSecure
  | privileged
deriving DecidableEq, Repr, Inhabited

namespace Protection

def label : Protection → String
  | secure => "secure"
  | nonSecure => "nonsecure"
  | privileged => "privileged"

/-- Documents spell a protection by one letter. -/
def table : LiteralTable Protection where
  kind := .protection
  spellings := [("s", secure), ("n", nonSecure), ("p", privileged)]

end Protection

/-- Which accesses a set of enumerated values is for. -/
inductive Usage where
  | read
  | write
  | readWrite
deriving DecidableEq, Repr, Inhabited

namespace Usage

def label : Usage → String
  | read => "read"
  | write => "write"
  | readWrite => "read-write"

/-- Documents spell a usage by its name. -/
def table : LiteralTable Usage where
  kind := .usage
  spellings := [read, write, readWrite].map fun usage => (usage.label, usage)

end Usage

/-- What an address block is used for.  The format knows three uses. -/
inductive BlockUsage where
  | registers
  | buffer
  | reserved
deriving DecidableEq, Repr, Inhabited

namespace BlockUsage

/-- The name of the use of an address block. -/
def label : BlockUsage → String
  | registers => "registers"
  | buffer => "buffer"
  | reserved => "reserved"

/-- Documents spell the use of an address block by its name. -/
def table : LiteralTable BlockUsage where
  kind := .blockUsage
  spellings := [registers, buffer, reserved].map fun usage => (usage.label, usage)

end BlockUsage

end ChipMap
