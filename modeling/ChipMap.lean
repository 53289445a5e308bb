import ChipMap.Main
import ChipMap.Target.Access
import ChipMap.Proofs.Inheritance.Agreement
import ChipMap.Proofs.Inheritance.Direct
import ChipMap.Proofs.Inheritance.Memory
import ChipMap.Proofs.Description.Item
import ChipMap.Proofs.Inheritance.Attributes
import ChipMap.Proofs.Inheritance.Merged
import ChipMap.Proofs.Inheritance.FieldRule
import ChipMap.Proofs.Inheritance.Scope
import ChipMap.Proofs.Inheritance.Inherits
import ChipMap.Proofs.Name.Claim
import ChipMap.Proofs.Name.Order
import ChipMap.Proofs.Map.WellFormed
import ChipMap.Proofs.Map.Parts
import ChipMap.Proofs.Map.Fields
import ChipMap.Proofs.Map.Build
import ChipMap.Proofs.Description.Decoded
import ChipMap.Proofs.Description.Children
import ChipMap.Proofs.Inheritance.Establish
import ChipMap.Proofs.Map.OfText
import ChipMap.Proofs.Map.Complete
import ChipMap.Proofs.Map.Sweep
import ChipMap.Proofs.Map.Located
import ChipMap.Proofs.Name.Case
import ChipMap.Proofs.Name.Spelling
import ChipMap.Proofs.Source.Shape
import ChipMap.Proofs.Source.Layout
import ChipMap.Proofs.Source.Place
import ChipMap.Proofs.Source.Sound
import ChipMap.Proofs.Source.Takes
import ChipMap.Proofs.Source.Stands
import ChipMap.Proofs.Source.Quiet
import ChipMap.Proofs.Source.Apart
import ChipMap.Proofs.Source.Lossless
import ChipMap.Proofs.Source.Types
import ChipMap.Proofs.Source.Scopes
import ChipMap.Proofs.Source.Closed
import ChipMap.Proofs.Source.Shared
import ChipMap.Proofs.Source.Code
import ChipMap.Proofs.Source.Terse
import ChipMap.Proofs.Source.OneLine
import ChipMap.Proofs.Source.Arrangement
import ChipMap.Proofs.Source.Selection
import ChipMap.Proofs.Storage.Delivery
import ChipMap.Proofs.Command.Failure
import ChipMap.Proofs.Target.Path
import ChipMap.Proofs.Target.Leads
import ChipMap.Proofs.Target.Elements
import ChipMap.Proofs.Target.Navigable
import ChipMap.Proofs.Target.Warned
import ChipMap.Proofs.Target.Access
import ChipMap.Proofs.Target.Transfers
import ChipMap.Proofs.Inheritance.Place
import ChipMap.Proofs.Inheritance.Search
import ChipMap.Proofs.Inheritance.Underway
import ChipMap.Proofs.Inheritance.FieldCircle
import ChipMap.Proofs.Inheritance.Orderly
import ChipMap.Proofs.Inheritance.OrderlySteps
import ChipMap.Proofs.Inheritance.Acyclic
import ChipMap.Proofs.Inheritance.Settle
import ChipMap.Proofs.Order.Description
import ChipMap.Proofs.Order.Merge
import ChipMap.Proofs.Order.Fields
import ChipMap.Proofs.Inheritance.Complete
import ChipMap.Proofs.Inheritance.Reuse
import ChipMap.Proofs.Inheritance.Cycle
import ChipMap.Proofs.Inheritance.Idempotent
import ChipMap.Proofs.Order.Resolution
import ChipMap.Proofs.Order.Layout
import ChipMap.Proofs.Order.Markup
import ChipMap.Proofs.Description.Readers
import ChipMap.Proofs.Order.Document
import ChipMap.Proofs.Markup.Sifted
import ChipMap.Proofs.Description.Unknown
import ChipMap.Proofs.Order.OfText
import ChipMap.Proofs.Order.Canonical
import ChipMap.Proofs.Numeral.Scaled
import ChipMap.Proofs.Numeral.Pattern
import ChipMap.Proofs.Map.Cases
import ChipMap.Proofs.Map.FieldLayout
import ChipMap.Proofs.Map.Arranged
import ChipMap.Proofs.Map.Inherited
import ChipMap.Proofs.Map.Extent
import ChipMap.Proofs.Target.Covered
import ChipMap.Proofs.Map.Counted
import ChipMap.Proofs.Map.Memory
import ChipMap.Proofs.Map.Redeclared
import ChipMap.Proofs.Source.Variants
import ChipMap.Proofs.Word.Range
import ChipMap.Proofs.Map.Repeats
import ChipMap.Proofs.Numeral.BitRange
import ChipMap.Proofs.Description.Encodings
import ChipMap.Proofs.Description.Places
import ChipMap.Proofs.Description.FaultPlaces
import ChipMap.Proofs.Name.Numbered
import ChipMap.Proofs.Numeral.Constant
import ChipMap.Proofs.Source.Nesting
import ChipMap.Proofs.Source.Indentation
import ChipMap.Proofs.Source.Printed
