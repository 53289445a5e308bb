import ChipMap.Name.Case

/-!
# Names that stay apart

Names that differ in case or underscores only would become one identifier when their case is
changed.  Such names are told apart by a number: the first claim of a name keeps it, and a later one
gets the least number that is free.  Who comes first is not settled here; the nodes of a map claim
their names in an order of their own.

* `distinctKey` — what of a name its cases depend on.
* `Claimed` — the keys of the names that were given out.
* `Claimed.choose`, `Claimed.claim` — the name given out for a wanted one.
* `Claimed.claimList`, `claimAll` — one claim after another.

### What is load-bearing

Names are compared by key and not as texts.  Every case of a name is made from its letters and
digits, so names with different keys stay different in every case, and names with one key may not.

The search for a number is bounded.  Different numbers give different keys, so among one more number
than there are names given out one is free, and the bound is never what ends the search.
-/

namespace ChipMap.Name

/-- The letters and digits of a name, in small letters.  Two names with different keys stay
different in every case, since a case changes capitals and what stands between the words. -/
def distinctKey (name : String) : List Char :=
  (name.toList.filter Char.isAlphanum).map Char.toLower

/-- The keys of all names given out so far, the latest first.  The names themselves are not kept:
only their keys decide about later claims. -/
structure Claimed where
  /-- One key for each name given out. -/
  keys : List (List Char)
deriving Repr, Inhabited

namespace Claimed

def empty : Claimed := ⟨[]⟩

/-- A name is free when no name of its key was given out. -/
def isFree (s : Claimed) (name : String) : Bool :=
  !s.keys.contains (distinctKey name)

/-- The name with the number `n` behind it. -/
def numbered (name : String) (n : Nat) : String :=
  name ++ "_" ++ toString n

/-- The name with the least number of at least one that is free.  Different numbers give different
keys, so one more number than there are names given out is enough to find it. -/
def firstFree (s : Claimed) (name : String) : String :=
  match (List.range (s.keys.length + 1)).find? fun i => s.isFree (numbered name (i + 1)) with
  | some i => numbered name (i + 1)
  | none => name

/-- The name to be given out for `name`: itself when it is free, and else with a number. -/
def choose (s : Claimed) (name : String) : String :=
  if s.isFree name then name else s.firstFree name

/-- The state after `name` was given out.  Of the name only its key is kept. -/
def add (s : Claimed) (name : String) : Claimed :=
  ⟨distinctKey name :: s.keys⟩

/-- The name given out for a wanted one, and the state after it. -/
def claim (s : Claimed) (name : String) : String × Claimed :=
  let chosen := s.choose name
  (chosen, s.add chosen)

/-- The names given out for a list of wanted ones, in order.  A name that is given out is taken for
the rest of the list, with or without a number. -/
def claimList (s : Claimed) : List String → List String
  | [] => []
  | name :: rest => s.choose name :: (s.add (s.choose name)).claimList rest

@[simp] theorem claimList_nil (s : Claimed) : s.claimList [] = [] := rfl

@[simp] theorem length_claimList (s : Claimed) (names : List String) :
    (s.claimList names).length = names.length := by
  induction names generalizing s with
  | nil => rfl
  | cons name rest ih => simp [claimList, ih]

end Claimed

/-- The names given out for a list of wanted ones when none was given out before. -/
def claimAll (names : List String) : List String :=
  Claimed.empty.claimList names

end ChipMap.Name
