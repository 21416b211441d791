import StagePlanner.Classification
import StagePlanner.Preparation.Simplification
import StagePlanner.Preparation.Terminator

/-!
# Stage boundaries

Markers are the places where a graph may be cut. A grouped input gets a `GATHER`
in front of it, an input that is consumed whole a `BROADCAST`, and checkpoints
become `CHECKPOINT` markers. An input that is bounded the right way already is
left alone.
-/

namespace StagePlanner

namespace Graph

/-- Whether an input has producers and all of them are `BEGIN` or a given marker for the same
data. -/
def isBounded (graph : Graph) (marker : Marker) (crossing : Crossing) (port : PortId) : Bool :=
  let producers := (graph.oppositeOperators port).toList
  !producers.isEmpty && producers.all (graph.holds fun operator =>
    operator.isMarkerOf .begin ||
      (operator.isMarkerOf marker && operator.traits.crossing = some crossing))

/-- Whether a port has opposites and all of them are checkpoint markers. -/
def isCheckpointed (graph : Graph) (port : PortId) : Bool :=
  let opposites := (graph.oppositeOperators port).toList
  !opposites.isEmpty && opposites.all (graph.isMarkerOf .checkpoint)

end Graph

/-- The data that cross a marker in front of an input. -/
def Port.crossing (port : Port) (aggregation : Option SerialNumber) : Crossing where
  dataType := port.dataType
  group := port.group
  aggregation

namespace Edit

/-- The port with a given identifier. -/
def port (id : PortId) : Edit Port := do
  let place ← look fun graph => graph.place id
  return place.port

/-- Puts a marker in front of an input unless it is bounded already. -/
def bound (marker : Marker) (input : PortId) (aggregation : Option SerialNumber) : Edit Unit := do
  let crossing := (← port input).crossing aggregation
  if !(← get).isBounded marker crossing input then
    let _ ← insertBefore input ((Blueprint.marker marker crossing.dataType).withCrossing crossing)

/-- Puts a checkpoint marker in front of an input. -/
def checkpointInput (input : PortId) : Edit Unit := do
  let dataType := (← port input).dataType
  let _ ← insertBefore input (.marker .checkpoint dataType)

/-- Puts a checkpoint marker in front of an input unless only such markers feed it. -/
def checkpointBefore (input : PortId) : Edit Unit := do
  if !(← get).isCheckpointed input then checkpointInput input

/-- Puts a checkpoint marker behind an output unless it feeds only such markers. -/
def checkpointAfter (output : PortId) : Edit Unit := do
  if !(← get).isCheckpointed output then
    let dataType := (← port output).dataType
    let _ ← insertAfter output (.marker .checkpoint dataType)

/-- Puts a marker in the place of a core checkpoint. -/
def markCheckpoint (id : OperatorId) : Edit Unit := do
  let input ← look fun graph => graph.inputAt id 0
  checkpointInput input
  bypass id

/-- Puts markers in the place of all core checkpoints. -/
def markCheckpoints : Edit Unit := do
  let targets := (← get).operators.filter fun operator => operator.isCore .checkpoint
  targets.forM fun operator => markCheckpoint operator.id

/-- Bounds the inputs of one operator. -/
def boundInputs (operatorClass : OperatorClass) : Edit Unit := do
  let operator ← look fun graph => graph.operator operatorClass.operator
  if operatorClass.primaryUse = .group then
    let aggregation := if operatorClass.partialReduction then some operator.serial else none
    operatorClass.primary.forM fun input => bound .gather input aggregation
  operatorClass.secondary.forM fun input => bound .broadcast input none

/-- Puts checkpoint markers behind all external inputs. -/
def checkpointExternalInputs : Edit Unit := do
  let targets := (← get).operators.filter fun operator => operator.kind.isInput
  targets.forM fun operator => operator.outputs.forM fun output => checkpointAfter output.id

/-- Puts checkpoint markers in front of all external outputs. -/
def checkpointExternalOutputs : Edit Unit := do
  let targets := (← get).operators.filter fun operator => operator.kind.isOutput
  targets.forM fun operator => operator.inputs.forM fun input => checkpointBefore input.id

end Edit

/-! ### Cyclic broadcasts

A broadcast is potentially cyclic when a consumer of it also depends, without any
marker in between, on an operator that produces the broadcast. Cutting at the
markers would put both into one stage, which would then wait for its own output.
Checkpoints in front of the consumers take them apart.
-/

namespace Graph

/-- The operators of a set that are no markers. -/
def withoutMarkers (graph : Graph) (operators : OrderedSet OperatorId) : OrderedSet OperatorId :=
  operators.filter (graph.holds fun operator => !operator.isMarker)

/-- Whether a consumer of a broadcast depends on a producer of it without a marker in between. -/
def isCyclicBroadcast (graph : Graph) (broadcast : OperatorId) : Bool :=
  let producers := graph.withoutMarkers (graph.predecessors broadcast)
  (graph.withoutMarkers (graph.successors broadcast)).toList.any fun consumer =>
    (graph.ancestors (fun operator => !operator.isMarker) consumer).meets producers

/-- The first potentially cyclic broadcast. -/
def cyclicBroadcast? (graph : Graph) : Option Operator :=
  graph.operators.find? fun operator =>
    operator.isMarkerOf .broadcast && graph.isCyclicBroadcast operator.id

/-- The inputs of a broadcast's consumers that no marker feeds. -/
def unboundedInputs (graph : Graph) (broadcast : OperatorId) : OrderedSet PortId :=
  let consumers := (graph.successors broadcast).toList.filterMap graph.operator?
  OrderedSet.ofList
    (((consumers.flatMap Operator.inputs).map fun port => port.id).filter fun input =>
      !(graph.oppositeOperators input).toList.any graph.isMarker)

end Graph

namespace Edit

/-- Checkpoints the inputs of the consumers of a broadcast that no marker feeds. -/
def breakBroadcast (broadcast : Operator) : Edit Unit := do
  let targets := (← get).unboundedInputs broadcast.id
  if targets.isEmpty then throw (.invariant (.nothingToCheckpoint broadcast.label))
  targets.toList.forM checkpointInput

/-- Breaks one cyclic broadcast after the other for a number of further rounds, after some that are
done. -/
def breakBroadcasts (done : Nat) : Nat → Edit LoopOutcome
  | 0 => return { steps := done, converged := (← get).cyclicBroadcast?.isNone }
  | remaining + 1 => do
    match (← get).cyclicBroadcast? with
    | none => return { steps := done, converged := true }
    | some broadcast => do
      breakBroadcast broadcast
      breakBroadcasts (done + 1) remaining

/-- Breaks cyclic broadcasts until there is none, but only up to a limit of rounds. -/
def removeCyclicBroadcasts (limit : Nat) : Edit LoopOutcome := breakBroadcasts 0 limit

end Edit

end StagePlanner
