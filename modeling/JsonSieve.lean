import JsonSieve.Json.Basic
import JsonSieve.Main
import JsonSieve.Proofs.Path.Atomic
import JsonSieve.Proofs.Path.Written
import JsonSieve.Proofs.Path.Stepwise
import JsonSieve.Proofs.Transform.Kept
import JsonSieve.Proofs.Filter.Parts
import JsonSieve.Proofs.Filter.Root
import JsonSieve.Proofs.Filter.Steady
import JsonSieve.Proofs.Filter.AtPath
import JsonSieve.Proofs.Chain.History
import JsonSieve.Proofs.Transform.AtPath
import JsonSieve.Proofs.Path.Frame
import JsonSieve.Proofs.Path.Agreement
import JsonSieve.Proofs.Chain.Group
import JsonSieve.Proofs.Path.Lens
import JsonSieve.Proofs.Path.Commuting
import JsonSieve.Proofs.Chain.Compose
import JsonSieve.Proofs.Double.Rounding
import JsonSieve.Proofs.Json.Numeral
import JsonSieve.Proofs.Double.Notation
import JsonSieve.Proofs.Json.Reading
import JsonSieve.Proofs.Value.Order
import JsonSieve.Proofs.Value.Tree
import JsonSieve.Proofs.Value.Document
import JsonSieve.Proofs.Value.ReadBack
import JsonSieve.Proofs.CommandLine.Records
import JsonSieve.Proofs.Value.Pruning
import JsonSieve.Proofs.Filter.Passing
import JsonSieve.Proofs.Filter.Pruning
import JsonSieve.Proofs.Value.Within
import JsonSieve.Proofs.Value.Equality
import JsonSieve.Proofs.Value.Integers
import JsonSieve.Proofs.Json.Decoded
import JsonSieve.Proofs.Chain.Origin
import JsonSieve.Proofs.Value.Reordering
import JsonSieve.Proofs.Path.Reordering
import JsonSieve.Proofs.Filter.Answer
import JsonSieve.Proofs.Filter.Reordering
import JsonSieve.Proofs.Transform.Reordering
import JsonSieve.Proofs.Chain.Reordering
import JsonSieve.Proofs.CommandLine.Pipeline
import JsonSieve.Proofs.Path.Pieces
import JsonSieve.Proofs.Filter.Patterns
import JsonSieve.Proofs.Chain.CacheBound
import JsonSieve.Proofs.Chain.VisitingOrder
import JsonSieve.Proofs.Text.Bytes
import JsonSieve.Proofs.Value.Canonical
import JsonSieve.Proofs.Text.Cut
import JsonSieve.Proofs.Template.Substitution
import JsonSieve.Proofs.CommandLine.Rendering
import JsonSieve.Proofs.CommandLine.TemplateFile
import JsonSieve.Proofs.Filter.Exclusion
import JsonSieve.Proofs.Filter.Unchanged
import JsonSieve.Proofs.Filter.Repeated
import JsonSieve.Proofs.Chain.Tests
import JsonSieve.Proofs.Filter.Existence
import JsonSieve.Proofs.Transform.ElementWise
import JsonSieve.Proofs.Transform.Copying
import JsonSieve.Proofs.Filter.Comparing
import JsonSieve.Proofs.Filter.Group
import JsonSieve.Proofs.Filter.Cutting
import JsonSieve.Proofs.Filter.Refusals
import JsonSieve.Proofs.Filter.Literals
import JsonSieve.Proofs.Transform.Refusals
import JsonSieve.Proofs.Transform.Operands
import JsonSieve.Proofs.Chain.DirectiveText
