import StagePlanner.Preparation.Terminator

/-!
# Live flow

An operator is live when its data can reach an external output, or when it is a
terminator beside such an operator. Everything else computes for nothing and is
removed.
-/

namespace StagePlanner

namespace Graph

/-- The operators that write datasets. -/
def externalOutputs (graph : Graph) : List OperatorId :=
  (graph.operators.filter fun operator => operator.kind.isOutput).map Operator.id

/-- The external outputs and all operators with a path to one. -/
def productive (graph : Graph) : OrderedSet OperatorId :=
  let outputs := graph.externalOutputs
  OrderedSet.ofList
    (outputs ++
      Reach.reachable (fun id => (graph.predecessors id).toList) graph.operatorIds outputs)

/-- Whether an operator is a terminator beside a member of a set. -/
def terminates (graph : Graph) (members : OrderedSet OperatorId) (operator : Operator) : Bool :=
  match operator.marker? with
  | some .begin => (graph.successors operator.id).meets members
  | some .finish => (graph.predecessors operator.id).meets members
  | _ => false

/-- The operators that are kept. -/
def isLive (graph : Graph) (productive : OrderedSet OperatorId) (operator : Operator) : Bool :=
  operator.id ∈ productive || graph.terminates productive operator

/-- The operators that are not live. -/
def deadOperators (graph : Graph) : List OperatorId :=
  let productive := graph.productive
  (graph.operators.filter fun operator => !graph.isLive productive operator).map Operator.id

end Graph

namespace Edit

/-- Removes what is not live and closes the ports that lose their opposites; gives how many
operators were removed. -/
def removeDeadFlow : Edit Nat := do
  let dead := (← get).deadOperators
  dead.forM fun id => do
    let _ ← remove id
  if !dead.isEmpty then attachTerminators
  return dead.length

end Edit

end StagePlanner
