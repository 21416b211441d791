import StagePlanner.Graph.Flow
import StagePlanner.Graph.Copy

/-!
# Stages

A stage owns copies of some operators. Its ports are markers among these copies;
each port also lists its origins, the markers of the prepared graph for which it
stands.
-/

namespace StagePlanner

/-- A port of a stage. -/
structure StagePort where
  id : StagePortId
  /-- The marker inside the stage. -/
  marker : OperatorId
  /-- The markers of the prepared graph for which the port stands. -/
  origins : OrderedSet OperatorId
  deriving DecidableEq, Repr

/-- A part of a plan that runs as a whole. -/
structure Stage where
  id : StageId
  graph : Graph
  inputs : List StagePort
  outputs : List StagePort
  /-- Which operator of the prepared graph every operator of the stage is a copy of. -/
  provenance : List (CopiedPair .operator)
  deriving DecidableEq, Repr

namespace Stage

/-- Every port, inputs first. -/
def ports (stage : Stage) : List StagePort := stage.inputs ++ stage.outputs

/-- The input with a given identifier. -/
def input? (stage : Stage) (id : StagePortId) : Option StagePort :=
  stage.inputs.find? fun port => port.id = id

/-- The output with a given identifier. -/
def output? (stage : Stage) (id : StagePortId) : Option StagePort :=
  stage.outputs.find? fun port => port.id = id

/-- The input that is a given marker. -/
def inputAt? (stage : Stage) (marker : OperatorId) : Option StagePort :=
  stage.inputs.find? fun port => port.marker = marker

/-- The output that is a given marker. -/
def outputAt? (stage : Stage) (marker : OperatorId) : Option StagePort :=
  stage.outputs.find? fun port => port.marker = marker

/-- The marker operator of a port. -/
def operator? (stage : Stage) (port : StagePort) : Option Operator :=
  stage.graph.operator? port.marker

/-- The kind of marker that a port is. -/
def marker? (stage : Stage) (port : StagePort) : Option Marker :=
  (stage.operator? port).bind Operator.marker?

/-- The operator of the prepared graph that an operator of the stage is a copy of. -/
def source? (stage : Stage) (copy : OperatorId) : Option OperatorId :=
  (stage.provenance.find? fun pair => pair.copy = copy).map CopiedPair.source

/-- The operators of the prepared graph that have a copy in the stage. -/
def sources (stage : Stage) : OrderedSet OperatorId :=
  OrderedSet.ofList (stage.provenance.map CopiedPair.source)

/-- The smallest serial number in the stage. -/
def rank (stage : Stage) : Option SerialNumber :=
  (OrderedSet.ofList (stage.graph.operators.map Operator.serial)).min?

/-- The number of operators and ports. -/
def weight (stage : Stage) : Nat := stage.graph.size + stage.inputs.length + stage.outputs.length

/-- Removes the marker of a port from the operators. -/
def withoutMarker (stage : Stage) (port : StagePort) : Except Fault Graph :=
  match stage.operator? port with
  | some operator => .ok (stage.graph.without operator)
  | none => .error (.graph (.unknownOperator port.marker))

/-- Removes an input together with its marker. -/
def removeInput (stage : Stage) (id : StagePortId) : Except Fault Stage :=
  match stage.input? id with
  | none => .error (.plan (.noStageInput stage.id id))
  | some port => do
    let graph ← stage.withoutMarker port
    return { stage with graph, inputs := stage.inputs.filter fun other => other.id ≠ id }

/-- Removes an output together with its marker. -/
def removeOutput (stage : Stage) (id : StagePortId) : Except Fault Stage :=
  match stage.output? id with
  | none => .error (.plan (.noStageOutput stage.id id))
  | some port => do
    let graph ← stage.withoutMarker port
    return { stage with graph, outputs := stage.outputs.filter fun other => other.id ≠ id }

/-- Lets an input stand for further origins. -/
def widenInput (stage : Stage) (id : StagePortId) (origins : OrderedSet OperatorId) : Stage :=
  { stage with
    inputs := stage.inputs.map fun port =>
      if port.id = id then { port with origins := port.origins.union origins } else port }

/-- Lets an output stand for further origins. -/
def widenOutput (stage : Stage) (id : StagePortId) (origins : OrderedSet OperatorId) : Stage :=
  { stage with
    outputs := stage.outputs.map fun port =>
      if port.id = id then { port with origins := port.origins.union origins } else port }

/-- Forgets the provenance of operators that are no longer there. -/
def pruneProvenance (stage : Stage) : Stage :=
  { stage with provenance := stage.provenance.filter fun pair => stage.graph.contains pair.copy }

end Stage

end StagePlanner
