import PlateModel.Assoc
import PlateModel.Binary64
import PlateModel.Binary64.Sum
import PlateModel.CommandLine.Arguments
import PlateModel.CommandLine.Files
import PlateModel.CommandLine.Run
import PlateModel.CommandLine.Table
import PlateModel.Compile.Compile
import PlateModel.Compile.Pass
import PlateModel.Data.Datum
import PlateModel.Decimal.Basic
import PlateModel.Decimal.Reading
import PlateModel.Decimal.Significant
import PlateModel.Diagnostic.Fault
import PlateModel.Diagnostic.Problem
import PlateModel.Diagnostic.Render
import PlateModel.Distribution.Binomial
import PlateModel.Distribution.Evaluation
import PlateModel.Distribution.Family
import PlateModel.Distribution.Moments
import PlateModel.Distribution.Parameters
import PlateModel.Distribution.Standard
import PlateModel.Elimination.Eliminate
import PlateModel.Elimination.Laws
import PlateModel.Emission.Emit
import PlateModel.Emission.Node
import PlateModel.Evaluation.Eval
import PlateModel.Evaluation.Fold
import PlateModel.Evaluation.Generator
import PlateModel.Expansion.Absorption
import PlateModel.Expansion.Conditionals
import PlateModel.Expansion.Descent
import PlateModel.Expansion.Resolve
import PlateModel.Expansion.Unroll
import PlateModel.Failure
import PlateModel.Graph.Digraph
import PlateModel.Json.Reader
import PlateModel.Json.Token
import PlateModel.Main
import PlateModel.Model.Form
import PlateModel.Model.Location
import PlateModel.Model.Names
import PlateModel.Model.Operator
import PlateModel.Model.Source
import PlateModel.Model.Substitution
import PlateModel.Model.Tree
import PlateModel.Network.Basic
import PlateModel.Network.Build
import PlateModel.Network.Conditioning
import PlateModel.Network.Independence
import PlateModel.Network.Sampling
import PlateModel.Normal.Links
import PlateModel.Normal.Special
import PlateModel.Normal.Validate
import PlateModel.Number.Arithmetic
import PlateModel.Number.Basic
import PlateModel.Number.Complex
import PlateModel.Power
import PlateModel.Proofs.Binary64.Bits
import PlateModel.Proofs.Binary64.Nearest
import PlateModel.Proofs.Compile.Again
import PlateModel.Proofs.Compile.Generated
import PlateModel.Proofs.Compile.Hygiene
import PlateModel.Proofs.Compile.Internal
import PlateModel.Proofs.Compile.Invariant
import PlateModel.Proofs.Compile.Points
import PlateModel.Proofs.Compile.Schedule
import PlateModel.Proofs.Computation
import PlateModel.Proofs.Confluence.Exhaustion
import PlateModel.Proofs.Confluence.Finished
import PlateModel.Proofs.Confluence.Progress
import PlateModel.Proofs.Confluence.Sources
import PlateModel.Proofs.Confluence.StatementOrder
import PlateModel.Proofs.Data.Rectangles
import PlateModel.Proofs.Decimal.Digits
import PlateModel.Proofs.Decimal.Numeral
import PlateModel.Proofs.Decimal.RoundTrip
import PlateModel.Proofs.Decimal.Shortest
import PlateModel.Proofs.Elimination.Answers
import PlateModel.Proofs.Elimination.Exact
import PlateModel.Proofs.Elimination.Live
import PlateModel.Proofs.Elimination.Members
import PlateModel.Proofs.Elimination.Origins
import PlateModel.Proofs.Elimination.Steps
import PlateModel.Proofs.Emission.Nodes
import PlateModel.Proofs.Evaluation.Calls
import PlateModel.Proofs.Evaluation.Folding
import PlateModel.Proofs.Evaluation.Formula
import PlateModel.Proofs.Evaluation.Plain
import PlateModel.Proofs.Evaluation.Sober
import PlateModel.Proofs.Expansion.Absorption
import PlateModel.Proofs.Expansion.Again
import PlateModel.Proofs.Expansion.Completeness
import PlateModel.Proofs.Expansion.Decisions
import PlateModel.Proofs.Expansion.Expands
import PlateModel.Proofs.Expansion.Failures
import PlateModel.Proofs.Expansion.Invariant
import PlateModel.Proofs.Expansion.Provenance
import PlateModel.Proofs.Expansion.Rounds
import PlateModel.Proofs.Expansion.Slices
import PlateModel.Proofs.Expansion.Steps
import PlateModel.Proofs.Expansion.Termination
import PlateModel.Proofs.Graph.Cycles
import PlateModel.Proofs.Graph.Order
import PlateModel.Proofs.Graph.Reach
import PlateModel.Proofs.Graph.Separation
import PlateModel.Proofs.Model.Atoms
import PlateModel.Proofs.Model.Forms
import PlateModel.Proofs.Model.Layouts
import PlateModel.Proofs.Model.Literals
import PlateModel.Proofs.Model.Occurrences
import PlateModel.Proofs.Model.Parts
import PlateModel.Proofs.Model.PlainNames
import PlateModel.Proofs.Model.References
import PlateModel.Proofs.Model.Rereading
import PlateModel.Proofs.Model.RoundTrip
import PlateModel.Proofs.Model.Spelling
import PlateModel.Proofs.Model.Substitution
import PlateModel.Proofs.Network.Aligned
import PlateModel.Proofs.Network.Built
import PlateModel.Proofs.Network.Columns
import PlateModel.Proofs.Network.Conditioned
import PlateModel.Proofs.Network.Dependencies
import PlateModel.Proofs.Network.Forks
import PlateModel.Proofs.Network.Independence
import PlateModel.Proofs.Network.Interrupted
import PlateModel.Proofs.Network.LastWriter
import PlateModel.Proofs.Network.LiveFactors
import PlateModel.Proofs.Network.Query
import PlateModel.Proofs.Network.Runs
import PlateModel.Proofs.Network.Samples
import PlateModel.Proofs.Normal.Insertions
import PlateModel.Proofs.Normal.Origins
import PlateModel.Proofs.Normal.Shapes
import PlateModel.Proofs.Normal.SingleCells
import PlateModel.Proofs.Normal.Specials
import PlateModel.Proofs.Normal.Unlowered
import PlateModel.Proofs.Registry.Calls
import PlateModel.Proofs.Registry.CellNames
import PlateModel.Proofs.Registry.Grid
import PlateModel.Proofs.Registry.NamedCells
import PlateModel.Proofs.Registry.Reference
import PlateModel.Proofs.Resolution.Acyclic
import PlateModel.Proofs.Resolution.CallDepth
import PlateModel.Proofs.Resolution.Depth
import PlateModel.Proofs.Resolution.Follow
import PlateModel.Proofs.Resolution.Growth
import PlateModel.Proofs.Resolution.Meaning
import PlateModel.Proofs.Resolution.Order
import PlateModel.Proofs.Resolution.OuterNames
import PlateModel.Proofs.Resolution.Replay
import PlateModel.Proofs.Resolution.Settling
import PlateModel.Proofs.Sexpr.Atoms
import PlateModel.Proofs.Sexpr.Reread
import PlateModel.Proofs.Sexpr.RoundTrip
import PlateModel.Proofs.Sexpr.Scan
import PlateModel.Proofs.Source.Grammar
import PlateModel.Proofs.Source.Unambiguous
import PlateModel.Proofs.Source.Words
import PlateModel.Proofs.State.CellEntries
import PlateModel.Proofs.State.Edits
import PlateModel.Proofs.State.Growth
import PlateModel.Proofs.State.Seeding
import PlateModel.Proofs.Table
import PlateModel.Proofs.Value.Cells
import PlateModel.Proofs.Value.Uniform
import PlateModel.Random.Generator
import PlateModel.Random.Laws
import PlateModel.Random.Ziggurat
import PlateModel.Registry.Basic
import PlateModel.Registry.Selection
import PlateModel.Resolution.Definitions
import PlateModel.Resolution.Given
import PlateModel.Resolution.Lowering
import PlateModel.Sexpr.Basic
import PlateModel.Sexpr.Reader
import PlateModel.Sexpr.Token
import PlateModel.Special.Elementary
import PlateModel.Special.Gamma
import PlateModel.Special.Incomplete
import PlateModel.Special.Normal
import PlateModel.State.Basic
import PlateModel.State.Seed
import PlateModel.Tensor.Basic
import PlateModel.Tensor.Elementwise
import PlateModel.Tensor.Reduction
import PlateModel.Tensor.Shape
import PlateModel.Tensor.Unary
import PlateModel.Text.Classes
import PlateModel.Text.Identifier
import PlateModel.Text.Lowercase
import PlateModel.Text.Printable
import PlateModel.Text.Quoted
import PlateModel.Text.Utf8
import PlateModel.Value.Basic
import PlateModel.Value.Formula
import PlateModel.Value.Functions
import PlateModel.Value.Operators
import PlateModel.Value.Plain
