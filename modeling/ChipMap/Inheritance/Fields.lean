import ChipMap.Inheritance.Merge

/-!
# Fields that derive from fields

A field derives from a field of its own register: from one that the register defines, or else from
one that the register inherits.  A field that the register defines and inherits takes from its
referent first and from the inherited field then.  Fields of other registers are never in reach.

* `FieldScope` — what the fields of one register are resolved against.
* `FieldScope.withInherited` — a field over the inherited field of its name.
* `resolveField` — one field, while the fields that need it are known.
* `resolveFields` — all fields that a register defines.

### What is load-bearing

The recursion follows references, which may run in a circle.  It has a fuel, and the fields under
way are listed beside it: a field that is met again is a cycle, and since no field is under way
twice, one more than the number of fields is enough fuel.  Inherited fields are resolved already, so
a reference to one of them ends the recursion.
-/

namespace ChipMap.Inheritance

open Description

/-- What the fields of a register are resolved against: the fields that the register defines, which
may refer to each other, and those that it inherits. -/
structure FieldScope where
  /-- The path of the register. -/
  path : String
  /-- The fields that the register defines. -/
  own : List Field
  /-- The fields that the register inherits; they are resolved. -/
  inherited : List Field
deriving Repr, Inhabited

namespace FieldScope

/-- The path of the field with the number `i`. -/
def fieldPath (s : FieldScope) (i : Nat) : String :=
  childPath s.path ((s.own[i]?.map (·.name)).getD "")

/-- The chain of a field that is needed to resolve itself.  The fields under way are given with the
latest first. -/
def chain (s : FieldScope) (underway : List Nat) (i : Nat) : List String :=
  let since := (underway.takeWhile (· != i)).reverse
  (i :: since ++ [i]).map s.fieldPath

/-- The fault of a field whose reference names no field.  All fields in reach are listed, the own
ones first. -/
def unresolved (s : FieldScope) (own : Field) (target : String) : ReferenceFault :=
  .unresolved .field (childPath s.path own.name) target ((s.own ++ s.inherited).map (·.name))

/-- A field with the absent attributes taken from the inherited field of its name. -/
def withInherited (s : FieldScope) (f : Field) : Field :=
  match fieldNamed? s.inherited f.name with
  | some inherited => f.orElse inherited
  | none => f

/-- The number of the first field of a name that the register defines. -/
def index? (s : FieldScope) (name : String) : Option Nat :=
  s.own.findIdx? fun f => f.name == name

end FieldScope

/-- The field with the number `i` resolved, while the fields `underway` wait for it.  Every step
puts one more field under way, so `fuel` is enough when it is above the number of fields that are
not under way; a field that is under way is a cycle. -/
def resolveField (s : FieldScope) : Nat → List Nat → Nat → Except ReferenceFault Field
  | 0, underway, i => .error (.cycle .field (s.chain underway i))
  | fuel + 1, underway, i =>
    if underway.contains i then .error (.cycle .field (s.chain underway i))
    else
      match s.own[i]? with
      | none => .error (.cycle .field (s.chain underway i))
      | some own =>
        let plain := { own with derivedFrom := none }
        match own.derivedFrom with
        | none => .ok (s.withInherited plain)
        | some target =>
          match s.index? target with
          | some j => do
            let referent ← resolveField s fuel (i :: underway) j
            return s.withInherited (plain.orElse referent)
          | none =>
            match fieldNamed? s.inherited target with
            | some referent => .ok (s.withInherited (plain.orElse referent))
            | none => .error (s.unresolved own target)

/-- All fields that a register defines, resolved in order.  The first fault ends the resolution. -/
def resolveFields (s : FieldScope) : Except ReferenceFault (List Field) :=
  (List.range s.own.length).mapM fun i => resolveField s (s.own.length + 1) [] i

end ChipMap.Inheritance
