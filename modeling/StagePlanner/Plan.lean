import Std.Data.ExtTreeMap
import StagePlanner.Dependency.Circuit
import StagePlanner.Stage
import StagePlanner.Total

/-!
# Plans

A plan is a list of stages. What connects them is not stored: an output feeds
an input exactly when both stand for a common origin.
-/

namespace StagePlanner

open Std (ExtTreeMap)

/-- The address of a stage port within a plan. -/
structure PortAddress where
  stage : StageId
  port : StagePortId
  deriving DecidableEq, Repr

namespace PortAddress

instance : Ord PortAddress := ⟨compareLex (compareOn stage) (compareOn port)⟩

instance : Std.TransOrd PortAddress :=
  inferInstanceAs (Std.TransCmp (compareLex (compareOn stage) (compareOn port)))

instance : Std.LawfulEqOrd PortAddress where
  eq_of_compare {left right} same := by
    have both := Ordering.then_eq_eq.1
      (show (compare left.stage right.stage).then (compare left.port right.port) = .eq from same)
    have stages : left.stage = right.stage := Std.LawfulEqCmp.eq_of_compare both.1
    have ports : left.port = right.port := Std.LawfulEqCmp.eq_of_compare both.2
    cases left; cases right; cases stages; cases ports; rfl

end PortAddress

/-- An output that feeds an input. -/
structure Connection where
  source : PortAddress
  target : PortAddress
  deriving DecidableEq, Repr

namespace Connection

instance : Ord Connection := ⟨compareLex (compareOn source) (compareOn target)⟩

instance : Std.TransOrd Connection :=
  inferInstanceAs (Std.TransCmp (compareLex (compareOn source) (compareOn target)))

instance : Std.LawfulEqOrd Connection where
  eq_of_compare {left right} same := by
    have both := Ordering.then_eq_eq.1
      (show (compare left.source right.source).then (compare left.target right.target) = .eq from same)
    have sources : left.source = right.source := Std.LawfulEqCmp.eq_of_compare both.1
    have targets : left.target = right.target := Std.LawfulEqCmp.eq_of_compare both.2
    cases left; cases right; cases sources; cases targets; rfl

end Connection

/-- A staged execution plan. -/
structure Plan where
  /-- The stages in plan order. -/
  stages : List Stage := []
  nextStage : StageId := ⟨0⟩
  nextPort : StagePortId := ⟨0⟩
  deriving DecidableEq, Repr

/-- Why a list of circuits keeps a plan from having an order. -/
def stageOrder : Except (List (OrderedSet StageId)) (List StageId) → Except Fault (List StageId)
  | .ok order => .ok order
  | .error circuits => .error (circuitFault circuits)

namespace Plan

/-- The identifiers of the stages in plan order. -/
def stageIds (plan : Plan) : List StageId := plan.stages.map Stage.id

/-- The stage with a given identifier. -/
def stage? (plan : Plan) (id : StageId) : Option Stage :=
  plan.stages.find? fun stage => stage.id = id

/-- The stage with a given identifier, or why there is none. -/
def stage (plan : Plan) (id : StageId) : Except Fault Stage :=
  match plan.stage? id with
  | some stage => .ok stage
  | none => .error (.plan (.unknownStage id))

/-- Puts a changed stage in the place of the one with its identifier. -/
def replace (plan : Plan) (stage : Stage) : Plan :=
  { plan with stages := plan.stages.map fun other => if other.id = stage.id then stage else other }

/-- The input at an address. -/
def input? (plan : Plan) (address : PortAddress) : Option StagePort :=
  (plan.stage? address.stage).bind fun stage => stage.input? address.port

/-- The output at an address. -/
def output? (plan : Plan) (address : PortAddress) : Option StagePort :=
  (plan.stage? address.stage).bind fun stage => stage.output? address.port

/-- The inputs of all stages that stand for one of some origins, in plan order. -/
def inputsFrom (plan : Plan) (origins : OrderedSet OperatorId) : List PortAddress :=
  plan.stages.flatMap fun stage =>
    (stage.inputs.filter fun port => port.origins.meets origins).map fun port => ⟨stage.id, port.id⟩

/-- The outputs of all stages that stand for one of some origins, in plan order. -/
def outputsFrom (plan : Plan) (origins : OrderedSet OperatorId) : List PortAddress :=
  plan.stages.flatMap fun stage =>
    (stage.outputs.filter fun port => port.origins.meets origins).map fun port => ⟨stage.id, port.id⟩

/-- The inputs that an output feeds, in plan order. -/
def consumers (plan : Plan) (output : PortAddress) : List PortAddress :=
  match plan.output? output with
  | some port => plan.inputsFrom port.origins
  | none => []

/-- The outputs that feed an input, in plan order. -/
def producers (plan : Plan) (input : PortAddress) : List PortAddress :=
  match plan.input? input with
  | some port => plan.outputsFrom port.origins
  | none => []

/-- Every output with every input that it feeds. -/
def connections (plan : Plan) : OrderedSet Connection :=
  OrderedSet.ofList (plan.stages.flatMap fun stage =>
    stage.outputs.flatMap fun port =>
      (plan.inputsFrom port.origins).map fun target => { source := ⟨stage.id, port.id⟩, target })

/-- Every input behind each of its origins, in plan order. -/
def originEntries (plan : Plan) : List (OperatorId × PortAddress) :=
  plan.stages.flatMap fun stage =>
    stage.inputs.flatMap fun port =>
      port.origins.toList.map fun origin => (origin, ⟨stage.id, port.id⟩)

/-- Lists an address under an origin, behind those that are there already. -/
def fileOrigin (index : ExtTreeMap OperatorId (List PortAddress))
    (entry : OperatorId × PortAddress) : ExtTreeMap OperatorId (List PortAddress) :=
  index.alter entry.1 fun listed => some (listed.getD [] ++ [entry.2])

/-- The inputs that stand for each origin, in plan order. -/
def inputsByOrigin (plan : Plan) : ExtTreeMap OperatorId (List PortAddress) :=
  plan.originEntries.foldl fileOrigin ∅

/-- The connections as they are found by looking origins up: an output comes upon an input once for
each origin that they have in common. -/
def indexedConnections (plan : Plan) : OrderedSet Connection :=
  let index := plan.inputsByOrigin
  OrderedSet.ofList (plan.stages.flatMap fun stage =>
    stage.outputs.flatMap fun port =>
      port.origins.toList.flatMap fun origin =>
        (index.getD origin []).map fun target => { source := ⟨stage.id, port.id⟩, target })

/-- Every stage depends on the stages that feed it. -/
def dependencies (plan : Plan) : DependencyGraph StageId :=
  DependencyGraph.ofLists plan.stageIds
    (plan.connections.toList.map fun connection =>
      ⟨connection.target.stage, connection.source.stage⟩)

/-- The rank of a stage in an order: its smallest serial number. -/
def rank (plan : Plan) (id : StageId) : Option SerialNumber := (plan.stage? id).bind Stage.rank

/-- The stages after the ones that feed them; wherever there is a choice, the one with the oldest
operator first. -/
def order (plan : Plan) : Except Fault (List StageId) :=
  stageOrder (plan.dependencies.orderBy plan.rank)

/-- Takes the stages of an order one by one out of a list. -/
def arrange : List StageId → List Stage → Except Fault (List Stage)
  | [], _ => .ok []
  | id :: rest, stages =>
    match stages.find? fun stage => stage.id = id with
    | none => .error (.invariant (.orderStage id))
    | some stage => do
      let arranged ← arrange rest (stages.filter fun other => other.id ≠ id)
      return stage :: arranged

/-- Puts the stages into another order. -/
def reorder (plan : Plan) (order : List StageId) : Except Fault Plan := do
  if order.length ≠ plan.stages.length then throw (.invariant .orderLength)
  let stages ← arrange order plan.stages
  return { plan with stages }

/-- The copies of an operator of the prepared graph, by stage. -/
def copiesOf (plan : Plan) (source : OperatorId) : List (StageId × OperatorId) :=
  let stages := plan.stages.mergeSort fun left right => left.id.index ≤ right.id.index
  stages.flatMap fun stage =>
    (stage.provenance.filter fun pair => pair.source = source).map fun pair => (stage.id, pair.copy)

/-- The number of stages, operators and ports. -/
def weight (plan : Plan) : Nat := plan.stages.length + total (plan.stages.map Stage.weight)

end Plan

end StagePlanner
