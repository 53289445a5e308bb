import ChipMap.Map.Extent
import ChipMap.Name.Order
import ChipMap.Numeral.Grouped

/-!
# Overlaps

Hardware may give two registers the same address on purpose, so an overlap is a warning and no
fault.  Ranges are visited in the order of their starts; each range that begins before the furthest
end seen so far overlaps the range that reaches there.  So every range is named at most once as the
second one of an overlap, and a list of ranges is visited once.

* `Overlap` — two ranges with the bytes they share.
* `overlapsAfter` — the overlaps of ranges that are in order.
* `overlaps` — the overlaps of ranges in any order.
* `Warning` — an overlap of two registers or of two peripherals, with `Warning.message`.
* `warnings` — the warnings of a device.

### What is load-bearing

Ranges are in order, so of all ranges seen so far only the one that reaches furthest matters: a
range that begins before its end shares bytes with it, and one that does not shares bytes with none
of them.  Empty ranges are left out before, as they share nothing and would break this.

The same sweep finds fields that share bits (`overlapsAfter` over the bits of fields), where the
first overlap is a fault.
-/

namespace ChipMap.Map

/-- Two ranges that share bytes.  The first one begins no later than the second. -/
structure Overlap where
  /-- The name of the range that comes first. -/
  first : String
  /-- The name of the range that comes second. -/
  second : String
  /-- The shared bytes. -/
  shared : Span
deriving DecidableEq, Repr, Inhabited

/-- The overlap of a range with one that begins no later, if they share bytes. -/
def overlapWith? (reaching : Option NamedSpan) (s : NamedSpan) : Option Overlap :=
  match reaching with
  | some r =>
    if s.span.start < r.span.stop then
      some ⟨r.name, s.name, ⟨s.span.start, min s.span.stop r.span.stop⟩⟩
    else none
  | none => none

/-- The range that reaches furthest, of one and the next; where they reach equally far, the
former. -/
def furthest (reaching : Option NamedSpan) (s : NamedSpan) : NamedSpan :=
  match reaching with
  | some r => if s.span.stop ≤ r.span.stop then r else s
  | none => s

/-- The overlaps of ranges in the order of their starts, when `reaching` reaches furthest of those
before them. -/
def overlapsAfter (reaching : Option NamedSpan) : List NamedSpan → List Overlap
  | [] => []
  | s :: rest => (overlapWith? reaching s).toList ++ overlapsAfter (some (furthest reaching s)) rest

/-- Ranges in the order of their starts, and of their names where these agree. -/
def bySpan (spans : List NamedSpan) : List NamedSpan :=
  Name.sortOn (Name.lexLe Name.textLe) (fun s => (s.span.start, s.name)) spans

/-- The overlaps of ranges.  Empty ranges share nothing. -/
def overlaps (spans : List NamedSpan) : List Overlap :=
  overlapsAfter none (bySpan (spans.filter fun s => s.span.start < s.span.stop))

/-- A finding about the addresses of a device that is no fault. -/
inductive Warning where
  /-- Two register elements of a peripheral share bytes. -/
  | registers (peripheral : String) (overlap : Overlap)
  /-- Two peripherals share bytes. -/
  | peripherals (overlap : Overlap)
deriving DecidableEq, Repr, Inhabited

/-- A range of bytes is written with both ends in hexadecimal. -/
def renderBytes (s : Span) : String :=
  Numeral.hexPlain s.start ++ ".." ++ Numeral.hexPlain s.stop

/-- The wording names both sides and the shared bytes. -/
def Warning.message : Warning → String
  | registers peripheral o =>
    peripheral ++ ": registers '" ++ o.first ++ "' and '" ++ o.second ++ "' overlap at " ++
      renderBytes o.shared
  | peripherals o =>
    "peripherals '" ++ o.first ++ "' and '" ++ o.second ++ "' overlap at " ++ renderBytes o.shared

/-- The addresses that a peripheral occupies.  Both ends stop at the greatest word. -/
def Peripheral.span (p : Peripheral) : NamedSpan :=
  let base := p.baseAddress.toNat
  ⟨p.name, ⟨clampedAdd base p.addressRange.start, clampedAdd base p.addressRange.stop⟩⟩

/-- The overlaps of registers of a peripheral, each under the name of the peripheral. -/
def Peripheral.warnings (p : Peripheral) : List Warning :=
  (overlaps p.elementSpans).map (.registers p.name)

/-- The warnings of a device: those of its peripherals in order, and then those between
peripherals. -/
def warnings (d : Device) : List Warning :=
  d.peripherals.flatMap Peripheral.warnings ++
    (overlaps (d.peripherals.map Peripheral.span)).map .peripherals

end ChipMap.Map
