import StagePlanner.Plan

/-!
# Equivalence of stage ports

Two ports of a stage may become one when their markers have equal keys. By serial
number a marker is only equivalent to copies of itself; by content it is
equivalent to any marker that carries the same data.
-/

namespace StagePlanner

/-- What a marker is compared by. -/
inductive EquivalenceKey where
  | serial (serial : SerialNumber)
  | dataType (dataType : DataType)
  | crossing (marker : Marker) (crossing : Crossing)
  /-- There is no such operator in the stage. -/
  | missing (id : OperatorId)
  deriving DecidableEq, Repr

/-- How markers are compared. -/
inductive Equivalence where
  | bySerial
  /-- Checkpoints by data type, shuffles and broadcasts by the data that cross them. -/
  | byContent
  deriving DecidableEq, Repr

/-- What the data of a boundary marker are compared by; nothing for other markers and for shuffles
that are read. -/
def contentKey? (operator : Operator) (isOutput : Bool) : Option EquivalenceKey :=
  match operator.marker? with
  | some .checkpoint => operator.outputs.head?.map fun port => .dataType port.dataType
  | some .gather => if isOutput then operator.traits.crossing.map (.crossing .gather) else none
  | some .broadcast => operator.traits.crossing.map (.crossing .broadcast)
  | _ => none

/-- The key of an operator of a stage. -/
def Equivalence.key (equivalence : Equivalence) (stage : Stage)
    (id : OperatorId) : EquivalenceKey :=
  match stage.graph.operator? id with
  | none => .missing id
  | some operator =>
    let isInput := (stage.inputAt? id).isSome
    let isOutput := (stage.outputAt? id).isSome
    let content := if isInput || isOutput then contentKey? operator isOutput else none
    match equivalence with
    | .bySerial => .serial operator.serial
    | .byContent => content.getD (.serial operator.serial)

end StagePlanner
