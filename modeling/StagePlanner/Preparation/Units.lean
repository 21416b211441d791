import StagePlanner.Classification
import StagePlanner.Preparation.Terminator

/-!
# Input units

The unit that an input declares is brought in line with how its operator in fact
consumes it. An operator with a wrong unit is rebuilt, so its identifier changes
and its serial number stays.
-/

namespace StagePlanner

namespace OperatorClass

/-- The units that an operator's inputs have to declare. -/
def requiredUnits (operatorClass : OperatorClass) (operator : Operator) : List (Option InputUnit) :=
  operator.inputs.map fun port => operatorClass.requiredUnit port.id port.unit

end OperatorClass

/-- Declares units for the inputs in order; inputs beyond the end of the list keep theirs. -/
def Blueprint.withUnits (blueprint : Blueprint) (units : List (Option InputUnit)) : Blueprint :=
  { blueprint with
    inputs :=
      List.zipWith (fun (port : PortShape) unit => { port with unit }) blueprint.inputs units ++
        blueprint.inputs.drop units.length }

namespace Edit

/-- Rebuilds an operator if an input declares another unit than it has to; tells whether it did. -/
def fixUnits (operatorClass : OperatorClass) : Edit Bool := do
  let operator ← look fun graph => graph.operator operatorClass.operator
  let units := operatorClass.requiredUnits operator
  if units = operator.inputs.map fun port => port.unit then return false
  let _ ← rebuild operator.id fun blueprint => blueprint.withUnits units
  return true

/-- Fixes the units of all user operators in the order of their serial numbers; gives how many were
rebuilt. -/
def fixAllUnits {ν : Type} [Volume ν] (estimator : Estimator) (limit : Option ν) : Edit Nat := do
  let graph ← get
  let users := graph.operators.filter fun operator => operator.kind.user?.isSome
  let ordered := users.mergeSort fun left right => left.serial.index ≤ right.serial.index
  let classes := classesOf estimator limit graph
  countChanges fixUnits
    (ordered.filterMap fun operator =>
      classes.find? fun operatorClass => operatorClass.operator = operator.id)

end Edit

end StagePlanner
