import StagePlanner.Preparation.Liveness
import StagePlanner.Graph.Snapshot

/-!
# Simplification

Rules that make a graph smaller, and the loop that repeats a simplifier until the
graph stops changing or the limit of rounds is reached.
-/

namespace StagePlanner

/-- One pass over a graph that may change it. -/
abbrev Simplifier := Edit Unit

/-- A single rule. -/
inductive SimplificationRule where
  /-- Drops projections that change nothing. -/
  | trivialProjections
  /-- Drops a checkpoint right behind another one that nothing else reads. -/
  | stackedCheckpoints
  deriving DecidableEq, Repr

/-- How a loop that is bounded by a number of rounds came to its end. -/
structure LoopOutcome where
  /-- The rounds that changed the graph. -/
  steps : Nat
  /-- Whether the loop ended before its limit. -/
  converged : Bool
  deriving DecidableEq, Repr

/-- Whether an operator is a projection that changes nothing. -/
def Operator.isTrivialProjection (operator : Operator) : Bool :=
  operator.isCore .project && operator.arguments.isEmpty &&
    match operator.inputs, operator.outputs with
    | [input], [output] => input.dataType = output.dataType
    | _, _ => false

namespace Graph

/-- Whether an operator of the graph is a core checkpoint. -/
def isCheckpoint (graph : Graph) (id : OperatorId) : Bool :=
  graph.holds (fun operator => operator.isCore .checkpoint) id

/-- Whether an operator is a checkpoint whose only predecessor is a checkpoint that has no other
successor. -/
def isStackedCheckpoint (graph : Graph) (id : OperatorId) : Bool :=
  graph.isCheckpoint id &&
    match (graph.predecessors id).toList with
    | [predecessor] =>
      graph.isCheckpoint predecessor && (graph.successors predecessor).size = 1
    | _ => false

end Graph

namespace SimplificationRule

/-- The name of a rule. -/
def symbol : SimplificationRule → String
  | .trivialProjections => "remove_trivial_projections"
  | .stackedCheckpoints => "collapse_checkpoints"

/-- Bypasses a checkpoint if it is stacked now; tells whether it was. -/
def collapseCheckpoint (id : OperatorId) : Edit Bool := do
  if (← get).isStackedCheckpoint id then
    Edit.bypass id
    return true
  else return false

/-- Applies a rule everywhere; tells whether it changed anything. -/
def apply : SimplificationRule → Edit Bool
  | .trivialProjections => do
    let targets := ((← get).operators.filter Operator.isTrivialProjection).map Operator.id
    targets.forM Edit.bypass
    return !targets.isEmpty
  | .stackedCheckpoints => do
    let count ← Edit.countChanges collapseCheckpoint (← get).operatorIds
    return count ≠ 0

end SimplificationRule

namespace Simplifier

/-- Applies rules in order. -/
def ofRules (rules : List SimplificationRule) : Simplifier :=
  rules.forM fun rule => do
    let _ ← rule.apply

/-- The rules that planning uses unless it is told otherwise. -/
def standard : Simplifier := ofRules [.trivialProjections, .stackedCheckpoints]

/-- A simplifier that never comes to rest: it drops the first projection or, when there is none, puts
one behind the first external input. It shows that a limit of rounds is kept. -/
def restless : Simplifier := do
  let graph ← get
  match graph.operators.find? fun operator => operator.isCore .project with
  | some projection => Edit.bypass projection.id
  | none =>
    match graph.operators.find? fun operator => operator.kind.isInput with
    | none => Edit.refuse .nothingToPerturb
    | some input => do
      let output ← Edit.look fun graph => graph.outputAt input.id 0
      let _ ← Edit.insertAfter output (.core .project (.named "order"))

/-- Repeats a simplifier for a number of further rounds, after some that are done, until a round
leaves the graph as it was. Dead flow is removed before every round. -/
def settle (simplifier : Simplifier) (done : Nat) : Nat → Edit LoopOutcome
  | 0 => do
    let _ ← Edit.removeDeadFlow
    return { steps := done, converged := false }
  | remaining + 1 => do
    let _ ← Edit.removeDeadFlow
    let before := (← get).snapshot
    simplifier
    if (← get).snapshot = before then return { steps := done, converged := true }
    else settle simplifier (done + 1) remaining

/-- Repeats a simplifier until the graph stops changing, but only up to a limit of rounds. -/
def optimize (simplifier : Simplifier) (limit : Nat) : Edit LoopOutcome := simplifier.settle 0 limit

end Simplifier

end StagePlanner
