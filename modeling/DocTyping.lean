import DocTyping.Command.Answer
import DocTyping.Command.Basic
import DocTyping.Command.Line
import DocTyping.Configuration
import DocTyping.Expression.Arguments
import DocTyping.Expression.Inference
import DocTyping.Expression.Scope
import DocTyping.Files
import DocTyping.Filter.Arguments
import DocTyping.Filter.Check
import DocTyping.Json.Basic
import DocTyping.Json.Binary64
import DocTyping.Json.Printer
import DocTyping.Json.Shortest
import DocTyping.Json.Token
import DocTyping.Json.Written
import DocTyping.Keyed
import DocTyping.Literal.Conformance
import DocTyping.Literal.Extended
import DocTyping.Literal.Typing
import DocTyping.Main
import DocTyping.Path.Basic
import DocTyping.Path.Pattern
import DocTyping.Path.Resolution
import DocTyping.Pipeline.Arguments
import DocTyping.Pipeline.Basic
import DocTyping.Pipeline.Destination
import DocTyping.Pipeline.Grouping
import DocTyping.Pipeline.Joins
import DocTyping.Pipeline.Nearness
import DocTyping.Pipeline.Projection
import DocTyping.Pipeline.Replacement
import DocTyping.Pipeline.Replay
import DocTyping.Pipeline.Stages
import DocTyping.Pipeline.Unwinding
import DocTyping.Pipeline.Update
import DocTyping.Pipeline.Windows
import DocTyping.Proofs.Checked
import DocTyping.Proofs.Expression.Data
import DocTyping.Proofs.Expression.Dereferencing
import DocTyping.Proofs.Expression.DistinctNames
import DocTyping.Proofs.Expression.Merging
import DocTyping.Proofs.Expression.NamesFit
import DocTyping.Proofs.Expression.References
import DocTyping.Proofs.Expression.Typing
import DocTyping.Proofs.Expression.Weakening
import DocTyping.Proofs.Filter.Elements
import DocTyping.Proofs.Filter.Equality
import DocTyping.Proofs.Filter.Fields
import DocTyping.Proofs.Filter.Levels
import DocTyping.Proofs.Filter.Locality
import DocTyping.Proofs.Filter.Negations
import DocTyping.Proofs.Filter.Passing
import DocTyping.Proofs.Json.DistinctKeys
import DocTyping.Proofs.Json.Rounding
import DocTyping.Proofs.Keyed
import DocTyping.Proofs.Literal.Admission
import DocTyping.Proofs.Literal.Describing
import DocTyping.Proofs.Literal.Semilattice
import DocTyping.Proofs.Literal.Unification
import DocTyping.Proofs.Literal.Widening
import DocTyping.Proofs.Literal.Widths
import DocTyping.Proofs.Path.Budget
import DocTyping.Proofs.Path.Completeness
import DocTyping.Proofs.Path.Continuation
import DocTyping.Proofs.Path.DottedNames
import DocTyping.Proofs.Path.Grammar
import DocTyping.Proofs.Path.Holding
import DocTyping.Proofs.Path.Instances
import DocTyping.Proofs.Path.Instantiation
import DocTyping.Proofs.Path.Lookup
import DocTyping.Proofs.Path.Names
import DocTyping.Proofs.Path.Removing
import DocTyping.Proofs.Path.Route
import DocTyping.Proofs.Path.Skipping
import DocTyping.Proofs.Path.Uncovering
import DocTyping.Proofs.Path.Unwinding
import DocTyping.Proofs.Path.Walk
import DocTyping.Proofs.Path.Writes
import DocTyping.Proofs.Path.Writing
import DocTyping.Proofs.Pipeline.Additions
import DocTyping.Proofs.Pipeline.Boundaries
import DocTyping.Proofs.Pipeline.Branches
import DocTyping.Proofs.Pipeline.Calls
import DocTyping.Proofs.Pipeline.Derivations
import DocTyping.Proofs.Pipeline.Documents
import DocTyping.Proofs.Pipeline.Dotting
import DocTyping.Proofs.Pipeline.Expressions
import DocTyping.Proofs.Pipeline.FirstFailure
import DocTyping.Proofs.Pipeline.Inclusion
import DocTyping.Proofs.Pipeline.Leaves
import DocTyping.Proofs.Pipeline.Names
import DocTyping.Proofs.Pipeline.Objects
import DocTyping.Proofs.Pipeline.Placement
import DocTyping.Proofs.Pipeline.Planting
import DocTyping.Proofs.Pipeline.Projections
import DocTyping.Proofs.Pipeline.Reloading
import DocTyping.Proofs.Pipeline.Removals
import DocTyping.Proofs.Pipeline.Replay
import DocTyping.Proofs.Pipeline.Restriction
import DocTyping.Proofs.Pipeline.Stages
import DocTyping.Proofs.Pipeline.Unwinding
import DocTyping.Proofs.Relaxation.Checks
import DocTyping.Proofs.Relaxation.Paths
import DocTyping.Proofs.Relaxation.Replay
import DocTyping.Proofs.Relaxation.Rules
import DocTyping.Proofs.Reordering.Acceptance
import DocTyping.Proofs.Reordering.Entries
import DocTyping.Proofs.Reordering.Expressions
import DocTyping.Proofs.Reordering.Filters
import DocTyping.Proofs.Reordering.Leaves
import DocTyping.Proofs.Reordering.Literals
import DocTyping.Proofs.Reordering.Operands
import DocTyping.Proofs.Reordering.Types
import DocTyping.Proofs.Reordering.Updates
import DocTyping.Proofs.Schema.Describing
import DocTyping.Proofs.Schema.Loaded
import DocTyping.Proofs.Schema.Names
import DocTyping.Proofs.Schema.NamesFit
import DocTyping.Proofs.Schema.Reloading
import DocTyping.Proofs.Schema.Removal
import DocTyping.Proofs.Schema.Reshaping
import DocTyping.Proofs.Schema.Tables
import DocTyping.Proofs.Text.ByteOrder
import DocTyping.Proofs.Update.Elements
import DocTyping.Proofs.Update.Identity
import DocTyping.Proofs.Update.Insertion
import DocTyping.Proofs.Update.Pulling
import DocTyping.Proofs.Update.Targets
import DocTyping.Proofs.Update.Widths
import DocTyping.Refusal
import DocTyping.Schema.Basic
import DocTyping.Schema.Description
import DocTyping.Schema.Loading
import DocTyping.Schema.Lookup
import DocTyping.Schema.Reader
import DocTyping.Schema.Reshape
import DocTyping.Text.Blank
import DocTyping.Text.Name
import DocTyping.Text.Timestamp
import DocTyping.Update.Check
import DocTyping.Update.Payload
import DocTyping.Vocabulary.Accumulator
import DocTyping.Vocabulary.Capability
import DocTyping.Vocabulary.ExprOperator
import DocTyping.Vocabulary.FilterOperator
import DocTyping.Vocabulary.Geometry
import DocTyping.Vocabulary.StoredType
import DocTyping.Vocabulary.UpdateOperator
