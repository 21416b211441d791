import StagePlanner.Plan

/-!
# Names of stages and ports

Stages are named by their position in the order of dependencies, ports by their
position among the inputs or outputs of their stage, oldest marker first.
-/

namespace StagePlanner

/-- The name of the thing at a position: a letter and the position. -/
def positionName (letter : String) (position : Nat) : String := letter ++ toString position

/-- Names for the items of a list by their positions. -/
def namedByPosition {α : Type} (letter : String) (items : List α) : List (α × String) :=
  items.zipIdx.map fun (item, position) => (item, positionName letter position)

namespace Stage

/-- Whether a port comes before another one: an absent marker first, then by serial number and
identifier. -/
def portPrecedes (stage : Stage) (left right : StagePort) : Bool :=
  let serial (port : StagePort) : Option SerialNumber := (stage.operator? port).map Operator.serial
  (compare (serial left) (serial right)).then (compare left.id right.id) ≠ .gt

/-- Ports in the order in which they are numbered. -/
def numbered (stage : Stage) (ports : List StagePort) : List StagePort :=
  ports.mergeSort stage.portPrecedes

/-- The names of all ports of a stage. -/
def portNames (stage : Stage) : List (StagePortId × String) :=
  namedByPosition "i" ((stage.numbered stage.inputs).map StagePort.id) ++
    namedByPosition "o" ((stage.numbered stage.outputs).map StagePort.id)

end Stage

namespace Plan

/-- The names of all stages. -/
def stageNames (plan : Plan) : Except Fault (List (StageId × String)) :=
  plan.order.map (namedByPosition "v")

/-- The names of all ports. -/
def portNames (plan : Plan) : List (StagePortId × String) := plan.stages.flatMap Stage.portNames

end Plan

end StagePlanner
