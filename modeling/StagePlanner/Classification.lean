import StagePlanner.Estimate

/-!
# Classes of operators

How every operator consumes its inputs: record by record, in groups, or whole.
Inputs that are consumed whole are secondary and delivered by broadcast; the
primary ones may need a shuffle.
-/

namespace StagePlanner

/-- How the primary inputs of an operator are consumed. -/
inductive PrimaryUse where
  /-- Record by record, without an exchange. -/
  | record
  /-- In groups that share a key, which needs a shuffle. -/
  | group
  /-- There is no input. -/
  | nothing
  deriving DecidableEq, Repr

/-- How an operator consumes its inputs. -/
structure OperatorClass where
  operator : OperatorId
  primaryUse : PrimaryUse
  primary : List PortId
  secondary : List PortId
  /-- Whether records of the primary inputs may be reduced before a shuffle. -/
  partialReduction : Bool
  deriving DecidableEq, Repr

namespace OperatorClass

/-- The unit in which an input has to be consumed; the current one if the class says nothing. -/
def requiredUnit (operatorClass : OperatorClass) (port : PortId)
    (current : Option InputUnit) : Option InputUnit :=
  if port ∈ operatorClass.secondary then some .whole
  else match operatorClass.primaryUse with
    | .record => some .record
    | .group => some .group
    | .nothing => current

end OperatorClass

section

variable {ν : Type} [Volume ν]

/-- Whether the data of an input are known to be within the broadcast limit. -/
def isBroadcastable (limit : Option ν) (graph : Graph) (estimates : Estimates ν)
    (port : PortId) : Bool :=
  match limit, estimates.input? graph port with
  | some limit, some volume => Volume.atMost volume limit
  | _, _ => false

/-- Whether the first input of a master join is delivered by broadcast: it is declared whole or
small enough. -/
def broadcastsMaster (limit : Option ν) (graph : Graph) (estimates : Estimates ν)
    (operator : Operator) : Bool :=
  match operator.inputs.head? with
  | some master => isBroadcastable limit graph estimates master.id || master.unit = some .whole
  | none => false

/-- The class of an operator; markers have none. -/
def classOf? (limit : Option ν) (graph : Graph) (estimates : Estimates ν)
    (operator : Operator) : Option OperatorClass :=
  let declared :=
    (operator.inputs.filter fun port => port.unit = some .whole).map fun port => port.id
  let decide (use : PrimaryUse) (secondary : List PortId) (partialReduction : Bool) : OperatorClass :=
    { operator := operator.id
      primaryUse := if operator.inputs.isEmpty then .nothing else use
      primary := (operator.inputs.map fun port => port.id).filter fun port => port ∉ secondary
      secondary, partialReduction }
  match operator.kind with
  | .marker _ => none
  | .user definition =>
    let partialReduction :=
      definition.partialAggregation && definition.kind.supportsPartialReduction
    if definition.kind.isMasterJoin then
      if broadcastsMaster limit graph estimates operator then
        let master := (operator.inputs.take 1).map fun port => port.id
        some (decide .record (master ++ declared.filter fun port => port ∉ master) partialReduction)
      else some (decide .group declared partialReduction)
    else if definition.kind.isGroupWise then some (decide .group declared partialReduction)
    else some (decide .record declared partialReduction)
  | _ => some (decide .record declared false)

/-- The classes of all operators, by ascending identifier. -/
def classesOf (estimator : Estimator) (limit : Option ν) (graph : Graph) : List OperatorClass :=
  let estimates := estimator.estimate graph
  graph.operators.filterMap (classOf? limit graph estimates)

end

end StagePlanner
