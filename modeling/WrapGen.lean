import WrapGen.Text.Quoted
import WrapGen.Decimal.Layout
import WrapGen.Descriptor.Parser
import WrapGen.Code.FragmentText
import WrapGen.Code.Recipe
import WrapGen.Catalog.Resolve
import WrapGen.Catalog.Spelling
import WrapGen.Catalog.Builtin
import WrapGen.Samples
import WrapGen.Conversion
import WrapGen.Bundle.SetWrapper
import WrapGen.Bundle.MapWrapper
import WrapGen.Bundle.Converters
import WrapGen.Batch.Basic
import WrapGen.Value.Conversion
import WrapGen.Wrapper.Store
import WrapGen.Text.Fields
import WrapGen.Path
import WrapGen.Destination
import WrapGen.Json.Basic
import WrapGen.Json.Reader
import WrapGen.Json.Record
import WrapGen.Manifest.Basic
import WrapGen.Manifest.Text
import WrapGen.Files.Error
import WrapGen.Files.System
import WrapGen.Files.Tree
import WrapGen.Manifest.Load
import WrapGen.Files.Emission
import WrapGen.Catalog.Listing
import WrapGen.Command.Basic
import WrapGen.Command.Outcome
import WrapGen.Command.Run
import WrapGen.Main
import WrapGen.Proofs.Conversion.Agreement
import WrapGen.Proofs.Wrapper.Refinement
import WrapGen.Proofs.Naming.Distinct
import WrapGen.Proofs.Descriptor.Grammar
import WrapGen.Proofs.Descriptor.Reading
import WrapGen.Proofs.Catalog.NormalForm
import WrapGen.Proofs.Binary.Widening
import WrapGen.Proofs.Conversion.RoundTrip
import WrapGen.Proofs.Execution.Method
import WrapGen.Proofs.Execution.MethodRuns
import WrapGen.Proofs.Bundle.Arguments
import WrapGen.Proofs.Bundle.Methods
import WrapGen.Proofs.Wrapper.Live
import WrapGen.Proofs.Bundle.Agreement
import WrapGen.Proofs.Batch.Composition
import WrapGen.Proofs.Batch.Rewording
import WrapGen.Proofs.Scenario.Basic
import WrapGen.Proofs.Scenario.Container
import WrapGen.Proofs.Scenario.Passing
import WrapGen.Proofs.Bundle.Slots
import WrapGen.Proofs.Wrapper.Typed
import WrapGen.Proofs.Wrapper.Iteration
import WrapGen.Proofs.Wrapper.Atomicity
import WrapGen.Proofs.Wrapper.Finding
import WrapGen.Proofs.Wrapper.Views
import WrapGen.Proofs.Binary.Integers
import WrapGen.Proofs.Value.Equality
import WrapGen.Proofs.Wrapper.Interchange
import WrapGen.Proofs.Files.Emission
import WrapGen.Proofs.Files.Destinations
import WrapGen.Proofs.Command.Printing
import WrapGen.Proofs.Manifest.RoundTrip
import WrapGen.Proofs.Bundle.Scoped
import WrapGen.Proofs.Bundle.Blocks
import WrapGen.Proofs.Value.Equivalence
import WrapGen.Proofs.Conversion.Domain
import WrapGen.Proofs.Wrapper.Strictness
import WrapGen.Proofs.Wrapper.Filling
import WrapGen.Proofs.Scenario.Distinct
import WrapGen.Proofs.Conversion.Introduced
import WrapGen.Proofs.Conversion.Collisions
import WrapGen.Proofs.Grammar.Operators
import WrapGen.Proofs.Grammar.Expression
import WrapGen.Proofs.Code.Bodies
import WrapGen.Proofs.Catalog.Registration
import WrapGen.Proofs.Bundle.Guards
import WrapGen.Proofs.Value.TotalOrder
import WrapGen.Proofs.Conversion.Levels
import WrapGen.Proofs.Files.Relative
