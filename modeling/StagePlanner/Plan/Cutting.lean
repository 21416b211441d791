import StagePlanner.Dependency.Statistics
import StagePlanner.Partition
import StagePlanner.Plan

/-!
# Cutting graphs into stages

Every operator has a level, the number of markers on the longest way to it.
Operators of one level that are joined without a marker in between form a region.
A region becomes a stage together with copies of all that lies before it up to
the next markers; an edge between two markers becomes a stage of its own. Stages
only depend on stages of lower levels.
-/

namespace StagePlanner

/-- The part of a graph that becomes a stage. -/
structure StageCut where
  members : OrderedSet OperatorId
  /-- The members that may feed outputs; the others only deliver something to these. -/
  producers : OrderedSet OperatorId
  inputs : OrderedSet OperatorId
  outputs : OrderedSet OperatorId
  deriving DecidableEq, Repr

namespace StageCut

/-- Refuses a port that is no marker among the members. -/
def checkPort (cut : StageCut) (graph : Graph) (port : OperatorId) : Except Fault Unit :=
  if port ∉ cut.members then .error (.plan (.notMemberMarker port))
  else match graph.operator? port with
    | none => .error (.graph (.unknownOperator port))
    | some operator => if operator.isMarker then .ok () else .error (.plan (.notMemberMarker port))

/-- Refuses ports that are no markers among the members, and ports on both sides. -/
def check (cut : StageCut) (graph : Graph) : Except Fault Unit := do
  cut.inputs.toList.forM (cut.checkPort graph)
  cut.outputs.toList.forM (cut.checkPort graph)
  match (cut.inputs.filter fun port => port ∈ cut.outputs).min? with
  | none => return ()
  | some port =>
    throw (.invariant (.bothEnds (((graph.operator? port).map Operator.label).getD "")))

/-- Whether an edge between two members is copied: nothing runs into an input or out of an output,
and only producers feed outputs. -/
def keeps (cut : StageCut) (source target : OperatorId) : Bool :=
  target ∉ cut.inputs && source ∉ cut.outputs && (target ∉ cut.outputs || source ∈ cut.producers)

end StageCut

namespace Plan

/-- The ports of a new stage; each stands for the marker of which it is a copy. -/
def stagePorts (provenance : List (CopiedPair .operator)) (markers : OrderedSet OperatorId)
    (first : StagePortId) : List StagePort :=
  let pairs :=
    markers.toList.filterMap fun marker => provenance.find? fun pair => pair.source = marker
  pairs.zipIdx.map fun (pair, offset) =>
    { id := ⟨first.index + offset⟩, marker := pair.copy, origins := .singleton pair.source }

/-- Adds a copy of a part of a graph as the last stage. -/
def addStage (plan : Plan) (graph : Graph) (cut : StageCut) : Except Fault Plan := do
  cut.check graph
  match graph.copyOf cut.members cut.keeps with
  | .error cause => throw (.graph cause)
  | .ok copied =>
    let inputs := stagePorts copied.origins cut.inputs plan.nextPort
    let firstOutput : StagePortId := ⟨plan.nextPort.index + inputs.length⟩
    let outputs := stagePorts copied.origins cut.outputs firstOutput
    let stage : Stage :=
      { id := plan.nextStage, graph := copied.graph, inputs, outputs, provenance := copied.origins }
    return {
      stages := plan.stages ++ [stage]
      nextStage := plan.nextStage.next
      nextPort := ⟨firstOutput.index + outputs.length⟩ }

end Plan

namespace Graph

/-- Extends a table of levels by an operator whose predecessors are in it. -/
def levelStep (graph : Graph) (levels : List (OperatorId × Nat))
    (id : OperatorId) : List (OperatorId × Nat) :=
  let ends := (graph.predecessors id).toList.map fun predecessor =>
    (levels.lookup predecessor).getD 0 + (if graph.isMarker predecessor then 1 else 0)
  levels ++ [(id, DependencyGraph.largest ends)]

/-- The level of every operator, along an order of dependencies. -/
def levels (graph : Graph) (order : List OperatorId) : List (OperatorId × Nat) :=
  order.foldl graph.levelStep []

/-- Joins an operator with its successors of the same level, markers excepted. -/
def joinSuccessors (graph : Graph) (levels : List (OperatorId × Nat))
    (regions : Partition OperatorId) (id : OperatorId) : Partition OperatorId :=
  let successors := (graph.successors id).toList.filter fun successor =>
    !graph.isMarker successor && levels.lookup successor = levels.lookup id
  successors.foldl (fun regions successor => (regions.add successor).union id successor)
    (regions.add id)

/-- The operators of one level that are joined without a marker in between, along an order of
dependencies. -/
def regions (graph : Graph) (order : List OperatorId) : Partition OperatorId :=
  let levels := graph.levels order
  (order.filter fun id => !graph.isMarker id).foldl (graph.joinSuccessors levels) {}

/-- The operators of a region and all that lies before them without a marker in between. -/
def closure (graph : Graph) (region : OrderedSet OperatorId) : OrderedSet OperatorId :=
  region.toList.foldl (fun members id =>
    members.union (graph.ancestors (fun operator => !operator.isMarker) id)) region

/-- The stage of a region. -/
def regionCut (graph : Graph) (region : OrderedSet OperatorId) : StageCut :=
  let members := graph.closure region
  let inputs := OrderedSet.ofList
    ((members.toList.flatMap fun id => (graph.predecessors id).toList).filter graph.isMarker)
  let outputs := OrderedSet.ofList
    ((region.toList.flatMap fun id => (graph.successors id).toList).filter graph.isMarker)
  { members := (members.union inputs).union outputs, producers := region, inputs, outputs }

/-- The stage of an edge between two markers. -/
def markerCut (source target : OperatorId) : StageCut where
  members := OrderedSet.ofList [source, target]
  producers := .singleton source
  inputs := .singleton source
  outputs := .singleton target

/-- The stages of all edges between markers, along an order of dependencies. -/
def markerCuts (graph : Graph) (order : List OperatorId) : List StageCut :=
  (order.filter graph.isMarker).flatMap fun source =>
    ((graph.successors source).toList.filter graph.isMarker).map (markerCut source)

/-- All stages into which a graph is cut: those of its regions, then those between markers. -/
def cuts (graph : Graph) (order : List OperatorId) : List StageCut :=
  (graph.regions order).classes.map graph.regionCut ++ graph.markerCuts order

/-- The smallest stages into which the markers cut a graph. -/
def primitivePlan (graph : Graph) : Except Fault Plan :=
  match graph.dependencies.order with
  | .error circuits => .error (circuitFault circuits)
  | .ok order => (graph.cuts order).foldlM (fun plan cut => plan.addStage graph cut) {}

end Graph

end StagePlanner
