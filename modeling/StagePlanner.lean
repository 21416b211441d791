import StagePlanner.Annotation
import StagePlanner.Annotation.Decoration
import StagePlanner.Annotation.Size
import StagePlanner.Binary64
import StagePlanner.Classification
import StagePlanner.CommandLine
import StagePlanner.CommandLine.Execution
import StagePlanner.CommandLine.Reading
import StagePlanner.Config
import StagePlanner.Config.Property
import StagePlanner.Decimal.Layout
import StagePlanner.Decimal.Reading
import StagePlanner.Dependency.Circuit
import StagePlanner.Dependency.Countdown
import StagePlanner.Dependency.Graph
import StagePlanner.Dependency.Statistics
import StagePlanner.Description
import StagePlanner.Digest
import StagePlanner.Document
import StagePlanner.Document.Building
import StagePlanner.Document.Content
import StagePlanner.Document.Decoding
import StagePlanner.Document.JsonFormat
import StagePlanner.Document.YamlFormat
import StagePlanner.Estimate
import StagePlanner.Fault
import StagePlanner.Files
import StagePlanner.Graph
import StagePlanner.Graph.Arena
import StagePlanner.Graph.Copy
import StagePlanner.Graph.Edit
import StagePlanner.Graph.Flow
import StagePlanner.Graph.Snapshot
import StagePlanner.Identifier
import StagePlanner.Iteration
import StagePlanner.Json
import StagePlanner.Json.Decoding
import StagePlanner.Json.Encoding
import StagePlanner.Json.Reading
import StagePlanner.Json.Text
import StagePlanner.Main
import StagePlanner.Manifest
import StagePlanner.Operator
import StagePlanner.Operator.Blueprint
import StagePlanner.OrderedSet
import StagePlanner.Partition
import StagePlanner.Plan
import StagePlanner.Plan.Assembly
import StagePlanner.Plan.Cutting
import StagePlanner.Plan.Draft
import StagePlanner.Plan.Equivalence
import StagePlanner.Plan.Grouping
import StagePlanner.Plan.Iteration
import StagePlanner.Plan.Naming
import StagePlanner.Plan.Parameter
import StagePlanner.Plan.Pruning
import StagePlanner.Plan.Statistics
import StagePlanner.Plan.Unification
import StagePlanner.Planning
import StagePlanner.Preparation
import StagePlanner.Preparation.Liveness
import StagePlanner.Preparation.Marking
import StagePlanner.Preparation.Simplification
import StagePlanner.Preparation.Terminator
import StagePlanner.Preparation.Units
import StagePlanner.Proofs.Annotation.Conversion
import StagePlanner.Proofs.Annotation.Decoration
import StagePlanner.Proofs.Annotation.Description
import StagePlanner.Proofs.Annotation.Iteration
import StagePlanner.Proofs.Annotation.Naming
import StagePlanner.Proofs.Annotation.Size
import StagePlanner.Proofs.Arena.Copying
import StagePlanner.Proofs.Arena.History
import StagePlanner.Proofs.Arena.Representation
import StagePlanner.Proofs.Arena.Simulation
import StagePlanner.Proofs.Assembly.Agreement
import StagePlanner.Proofs.Assembly.Delivery
import StagePlanner.Proofs.Assembly.Descent
import StagePlanner.Proofs.Assembly.Feeding
import StagePlanner.Proofs.Assembly.Integrity
import StagePlanner.Proofs.Assembly.Liveness
import StagePlanner.Proofs.Assembly.Looping
import StagePlanner.Proofs.Assembly.Normality
import StagePlanner.Proofs.Assembly.Pass
import StagePlanner.Proofs.Assembly.Pruning
import StagePlanner.Proofs.Assembly.Removal
import StagePlanner.Proofs.Assembly.Schedule
import StagePlanner.Proofs.Assembly.Search
import StagePlanner.Proofs.Assembly.Settlement
import StagePlanner.Proofs.Assembly.Sharing
import StagePlanner.Proofs.Assembly.Step
import StagePlanner.Proofs.Assembly.Takeover
import StagePlanner.Proofs.Assembly.Thinning
import StagePlanner.Proofs.Assembly.Weight
import StagePlanner.Proofs.Circuitless
import StagePlanner.Proofs.Cutting.Cut
import StagePlanner.Proofs.Cutting.Exactness
import StagePlanner.Proofs.Cutting.Level
import StagePlanner.Proofs.Dependency.Circuit
import StagePlanner.Proofs.Dependency.Countdown
import StagePlanner.Proofs.Dependency.Order
import StagePlanner.Proofs.Dependency.Statistics
import StagePlanner.Proofs.Document.Building
import StagePlanner.Proofs.Document.Endpoint
import StagePlanner.Proofs.Estimate.Equations
import StagePlanner.Proofs.Estimate.Invariance
import StagePlanner.Proofs.Estimate.Splicing
import StagePlanner.Proofs.Fallible
import StagePlanner.Proofs.Flow.Assembly
import StagePlanner.Proofs.Flow.Faithful
import StagePlanner.Proofs.Flow.Inflow
import StagePlanner.Proofs.Flow.Preservation
import StagePlanner.Proofs.Flow.Stages
import StagePlanner.Proofs.Graph.Ancestry
import StagePlanner.Proofs.Graph.Atomicity
import StagePlanner.Proofs.Graph.Completion
import StagePlanner.Proofs.Graph.Copying
import StagePlanner.Proofs.Graph.Detours
import StagePlanner.Proofs.Graph.Editing
import StagePlanner.Proofs.Graph.Growth
import StagePlanner.Proofs.Graph.Lookup
import StagePlanner.Proofs.Graph.Outcome
import StagePlanner.Proofs.Graph.Rebuilding
import StagePlanner.Proofs.Graph.Regularity
import StagePlanner.Proofs.Graph.Renaming
import StagePlanner.Proofs.Graph.Restriction
import StagePlanner.Proofs.Graph.Snapshot
import StagePlanner.Proofs.Graph.Splicing
import StagePlanner.Proofs.Graph.Wiring
import StagePlanner.Proofs.Grouping.Classification
import StagePlanner.Proofs.Grouping.Contraction
import StagePlanner.Proofs.Grouping.Splitting
import StagePlanner.Proofs.Keyed
import StagePlanner.Proofs.Marking.Broadcasts
import StagePlanner.Proofs.Marking.Checkpointing
import StagePlanner.Proofs.Marking.Insertion
import StagePlanner.Proofs.Marking.Passage
import StagePlanner.Proofs.Merging.Cut
import StagePlanner.Proofs.Merging.Merge
import StagePlanner.Proofs.Multiplicity.Assembly
import StagePlanner.Proofs.Multiplicity.Dissolving
import StagePlanner.Proofs.Multiplicity.Folding
import StagePlanner.Proofs.Multiplicity.Presence
import StagePlanner.Proofs.Multiplicity.Retaining
import StagePlanner.Proofs.Multiplicity.Unification
import StagePlanner.Proofs.Multiplicity.Upstream
import StagePlanner.Proofs.Partition.Calls
import StagePlanner.Proofs.Partition.Classes
import StagePlanner.Proofs.Plan.Connection
import StagePlanner.Proofs.Plan.Parameter
import StagePlanner.Proofs.Planning.Driving
import StagePlanner.Proofs.Planning.Exchange
import StagePlanner.Proofs.Planning.Naming
import StagePlanner.Proofs.Planning.Sizes
import StagePlanner.Proofs.Planning.Staging
import StagePlanner.Proofs.Planning.Totality
import StagePlanner.Proofs.Preparation.Agreement
import StagePlanner.Proofs.Preparation.Bounds
import StagePlanner.Proofs.Preparation.Capping
import StagePlanner.Proofs.Preparation.Circuits
import StagePlanner.Proofs.Preparation.Closure
import StagePlanner.Proofs.Preparation.Demands
import StagePlanner.Proofs.Preparation.Idempotence
import StagePlanner.Proofs.Preparation.Readiness
import StagePlanner.Proofs.Preparation.Regularity
import StagePlanner.Proofs.Preparation.Reporting
import StagePlanner.Proofs.Preparation.Rounds
import StagePlanner.Proofs.Preparation.Saturation
import StagePlanner.Proofs.Preparation.Sequence
import StagePlanner.Proofs.Preparation.Terminators
import StagePlanner.Proofs.Preparation.Totality
import StagePlanner.Proofs.Preparation.Units
import StagePlanner.Proofs.Reachability
import StagePlanner.Proofs.Route
import StagePlanner.Proofs.Route.Shortening
import StagePlanner.Proofs.Simplification.DeadFlow
import StagePlanner.Proofs.Simplification.Fixpoint
import StagePlanner.Proofs.Simplification.Paths
import StagePlanner.Proofs.Simplification.Relays
import StagePlanner.Proofs.Simplification.Terminators
import StagePlanner.Proofs.Stage.Drafting
import StagePlanner.Proofs.Stage.Realization
import StagePlanner.Proofs.Stage.Soundness
import StagePlanner.SavedPlan
import StagePlanner.Schema
import StagePlanner.Stage
import StagePlanner.Stage.Role
import StagePlanner.Text.Character
import StagePlanner.Total
import StagePlanner.Volume
import StagePlanner.Yaml.Cursor
import StagePlanner.Yaml.Node
import StagePlanner.Yaml.Node.Reading
import StagePlanner.Yaml.Resolution
import StagePlanner.Yaml.Scalar
import StagePlanner.Yaml.Scalar.Reading
import StagePlanner.Yaml.Token
import StagePlanner.Yaml.Token.Property
import StagePlanner.Yaml.Token.Reading
