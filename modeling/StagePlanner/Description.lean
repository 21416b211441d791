import Std.Data.ExtTreeMap
import StagePlanner.Annotation
import StagePlanner.Digest
import StagePlanner.Json.Encoding
import StagePlanner.Json.Text

/-!
# Descriptions of plans

The form in which a decorated plan leaves the program: vertices with named ports,
how data are exchanged at each of them, and which ports of other vertices they are
connected with. A plan without names for all of its stages and ports has the empty
description.
-/

namespace StagePlanner

open Std (ExtTreeMap)

/-- How data pass a port. -/
inductive DataExchange where
  | move
  | shuffle
  | broadcast
  | aggregate
  | nothing
  | unknown
  deriving DecidableEq, Repr

namespace DataExchange

/-- The name in readable texts. -/
def title : DataExchange → String
  | .move => "Move"
  | .shuffle => "Shuffle"
  | .broadcast => "Broadcast"
  | .aggregate => "Aggregate"
  | .nothing => "Nothing"
  | .unknown => "Unknown"

/-- The name in documents. -/
def symbol (exchange : DataExchange) : String := Text.upper exchange.title

/-- The exchange at an input. -/
def ofInput : Option InputDistribution → DataExchange
  | some .dontCare => .move
  | some .partitioned => .shuffle
  | some .void => .nothing
  | some .broadcast => .broadcast
  | none => .unknown

/-- The exchange at an output. -/
def ofOutput : Option OutputDistribution → DataExchange
  | some .dontCare => .move
  | some .aggregated => .aggregate
  | some .broadcast => .broadcast
  | some .discard => .nothing
  | some .partitioned => .shuffle
  | none => .unknown

end DataExchange

/-- The description of a port. -/
structure PortDescription (ν : Type) where
  name : String
  dataType : String
  exchange : DataExchange
  /-- The keys by which the data are partitioned. -/
  partition : Option (List String)
  aggregation : Option SerialNumber
  size : Option ν
  partitionSize : Option SizeClass
  /-- The connected ports of other vertices. -/
  opposites : List String

/-- The description of a stage. -/
structure VertexDescription (ν : Type) where
  name : String
  label : String
  inputs : List (PortDescription ν)
  outputs : List (PortDescription ν)
  /-- The labels of the operators that the stage runs. -/
  operators : List String

/-- The description of a plan. -/
structure PlanDescription (ν : Type) where
  vertices : List (VertexDescription ν) := []

/-- A conversion that adds to a description and may fail; the description that it leaves is known either
way. -/
abbrev Describing (ν : Type) (α : Type) := ExceptT Fault (StateM (PlanDescription ν)) α

/-- The description that a conversion leaves, and whether it failed. -/
def Describing.apply {ν α : Type} (describing : Describing ν α)
    (description : PlanDescription ν) : Except Fault α × PlanDescription ν :=
  describing.run.run description

/-- Texts in ascending order. -/
def sortedTexts (texts : List String) : List String :=
  texts.mergeSort fun left right => compare left right ≠ .gt

namespace AnnotatedPlan

variable {ν : Type}

/-- The full name of a port of a stage, if both have names. -/
def portName? (plan : AnnotatedPlan ν) (stage : StageId) (port : StagePortId) : Option String := do
  let vertex ← (plan.notes.stage stage).name
  let name ← (plan.notes.port port).name
  return vertex ++ "." ++ name

/-- Whether a stage and all of its ports have names. -/
def isNamed (plan : AnnotatedPlan ν) (stage : Stage) : Bool :=
  (plan.notes.stage stage.id).name.isSome &&
    stage.ports.all fun port => (plan.notes.port port.id).name.isSome

/-- The full names of some ports in ascending order. -/
def names (plan : AnnotatedPlan ν) (addresses : List PortAddress) : List String :=
  sortedTexts (addresses.filterMap fun address => plan.portName? address.stage address.port)

/-- The description of an input. -/
def describeInput (plan : AnnotatedPlan ν) (port : StagePort) : PortDescription ν :=
  let notes := plan.notes.port port.id
  { name := notes.name.getD ""
    dataType := (notes.inputRole.map fun role => role.dataType.name).getD ""
    exchange := .ofInput (notes.inputRole.map InputRole.distribution)
    partition := (notes.inputRole.bind InputRole.partition).map Group.keys
    aggregation := none
    size := notes.size.join
    partitionSize := notes.partitionSize
    opposites := plan.names (plan.plan.outputsFrom port.origins) }

/-- The description of an output. -/
def describeOutput (plan : AnnotatedPlan ν) (port : StagePort) : PortDescription ν :=
  let notes := plan.notes.port port.id
  { name := notes.name.getD ""
    dataType := (notes.outputRole.map fun role => role.dataType.name).getD ""
    exchange := .ofOutput (notes.outputRole.map OutputRole.distribution)
    partition := (notes.outputRole.bind OutputRole.partition).map Group.keys
    aggregation := notes.outputRole.bind OutputRole.aggregation
    size := notes.size.join
    partitionSize := notes.partitionSize
    opposites := plan.names (plan.plan.inputsFrom port.origins) }

/-- Descriptions of ports in the order of their names. -/
def sortedPorts (ports : List (PortDescription ν)) : List (PortDescription ν) :=
  ports.mergeSort fun left right => compare left.name right.name ≠ .gt

/-- The description of a stage. -/
def describeStage (plan : AnnotatedPlan ν) (stage : Stage) : VertexDescription ν :=
  let notes := plan.notes.stage stage.id
  let name := notes.name.getD ""
  { name
    label := (notes.role.map StageRole.label).getD name
    inputs := sortedPorts (stage.inputs.map plan.describeInput)
    outputs := sortedPorts (stage.outputs.map plan.describeOutput)
    operators :=
      (stage.graph.operators.filter fun operator => !operator.isMarker).map Operator.label }

/-- The description of a plan; it is empty unless everything has a name. -/
def describe (plan : AnnotatedPlan ν) : PlanDescription ν :=
  if plan.plan.stages.all plan.isNamed then
    { vertices := plan.plan.stages.map plan.describeStage }
  else {}

/-- The addresses of all ports of a stage with their full names, if everything has a name. -/
def namedAddresses? (plan : AnnotatedPlan ν) (stage : Stage) : Option (List (PortAddress × String)) := do
  let vertex ← (plan.notes.stage stage.id).name
  stage.ports.mapM fun port => do
    let name ← (plan.notes.port port.id).name
    return (⟨stage.id, port.id⟩, vertex ++ "." ++ name)

/-- The full names of all ports by their addresses, if everything has a name. -/
def nameTable? (plan : AnnotatedPlan ν) : Option (ExtTreeMap PortAddress String) := do
  let entries ← plan.plan.stages.mapM plan.namedAddresses?
  return .ofList entries.flatten

/-- The names in ascending order that a table has for some addresses. -/
def tabledNames (table : ExtTreeMap PortAddress String) (addresses : List PortAddress) : List String :=
  sortedTexts (addresses.filterMap fun address => table[address]?)

/-- The description of a stage, with names from a table for what its ports are connected with. -/
def tabledStage (plan : AnnotatedPlan ν) (table : ExtTreeMap PortAddress String)
    (stage : Stage) : VertexDescription ν :=
  { plan.describeStage stage with
    inputs := sortedPorts (stage.inputs.map fun port =>
      { plan.describeInput port with
        opposites := tabledNames table (plan.plan.producers ⟨stage.id, port.id⟩) })
    outputs := sortedPorts (stage.outputs.map fun port =>
      { plan.describeOutput port with
        opposites := tabledNames table (plan.plan.consumers ⟨stage.id, port.id⟩) }) }

/-- The description as it is put together from a table of all names: what a port is connected with is
asked for by its address, and what has no name in the table is left out. -/
def tabledDescription (plan : AnnotatedPlan ν) : PlanDescription ν :=
  match plan.nameTable? with
  | some table => { vertices := plan.plan.stages.map (plan.tabledStage table) }
  | none => {}

/-- The name of a stage, which must have one. -/
def nameOf (plan : AnnotatedPlan ν) (stage : Stage) : Except Fault String :=
  match (plan.notes.stage stage.id).name with
  | some name => .ok name
  | none => .error (.plan (.unnamedStage stage.id))

/-- Enters the full name of a port into a table. -/
def enterPort (plan : AnnotatedPlan ν) (stage : Stage) (vertex : String)
    (table : ExtTreeMap PortAddress String)
    (port : StagePort) : Except Fault (ExtTreeMap PortAddress String) :=
  match (plan.notes.port port.id).name with
  | some name => .ok (table.insert ⟨stage.id, port.id⟩ (vertex ++ "." ++ name))
  | none => .error (.plan (.unnamedPort stage.id port.id))

/-- Enters the full names of all ports of a stage, inputs first. -/
def enterStage (plan : AnnotatedPlan ν) (table : ExtTreeMap PortAddress String)
    (stage : Stage) : Except Fault (ExtTreeMap PortAddress String) := do
  let vertex ← plan.nameOf stage
  stage.ports.foldlM (plan.enterPort stage vertex) table

/-- Enters the full names of all ports. -/
def enterNames (plan : AnnotatedPlan ν) : Except Fault (ExtTreeMap PortAddress String) :=
  plan.plan.stages.foldlM plan.enterStage ∅

/-- Adds the description of a stage. -/
def pushVertex (plan : AnnotatedPlan ν) (table : ExtTreeMap PortAddress String)
    (stage : Stage) : Describing ν Unit := do
  let _ ← plan.nameOf stage
  modify fun description => { vertices := description.vertices ++ [plan.tabledStage table stage] }

/-- The conversion of a plan to its description: one sweep over the stages collects the names of all
ports, another one describes the stages. -/
def convert (plan : AnnotatedPlan ν) : Describing ν Unit := do
  let table ← plan.enterNames
  plan.plan.stages.forM (plan.pushVertex table)

end AnnotatedPlan

namespace PlanDescription

variable {ν : Type}

/-- The vertex with a given name. -/
def vertex? (description : PlanDescription ν) (name : String) : Option (VertexDescription ν) :=
  description.vertices.find? fun vertex => vertex.name == name

/-- The full names of both ends of every connection. -/
def edges (description : PlanDescription ν) : List (String × String) :=
  description.vertices.flatMap fun vertex =>
    vertex.outputs.flatMap fun output =>
      output.opposites.map fun opposite => (vertex.name ++ "." ++ output.name, opposite)

end PlanDescription

/-- The description of a port as JSON. -/
def PortDescription.json {ν : Type} (encode : ν → Json) (port : PortDescription ν) : Json :=
  .object ([("name", .text port.name), ("data_type", .text port.dataType),
      ("exchange", .text port.exchange.symbol)] ++
    Json.memberOf "partition" Json.texts port.partition ++
    Json.memberOf "aggregation" Id.json port.aggregation ++
    Json.memberOf "size_bytes" encode port.size ++
    Json.memberOf "partition_size" (fun size : SizeClass => .text size.symbol) port.partitionSize ++
    [("opposites", .texts port.opposites)])

/-- The description of a stage as JSON. -/
def VertexDescription.json {ν : Type} (encode : ν → Json) (vertex : VertexDescription ν) : Json :=
  .object [("name", .text vertex.name), ("label", .text vertex.label),
    ("inputs", .list (PortDescription.json encode) vertex.inputs),
    ("outputs", .list (PortDescription.json encode) vertex.outputs),
    ("operators", .texts vertex.operators)]

/-- The description of a plan as JSON. -/
def PlanDescription.json {ν : Type} (encode : ν → Json) (description : PlanDescription ν) : Json :=
  .object [("vertices", .list (VertexDescription.json encode) description.vertices)]

/-- The digest of a description: that of its JSON text without blanks. -/
def PlanDescription.digest (description : PlanDescription Float) : Digest :=
  .ofText (description.json .float).compact

end StagePlanner
