import StagePlanner.Graph.Flow
import StagePlanner.Graph.Edit

/-!
# Terminators

A graph is closed when every input has a producer and every output a consumer.
Ports without an opposite are attached to terminators, `BEGIN` in front of
inputs and `END` behind outputs; a terminator beside a real opposite is dropped
again. Closed graphs are the ones that are cut into stages, provided that they
have no circuit.
-/

namespace StagePlanner

namespace Graph

/-- The inputs without producer, apart from those of `BEGIN` terminators. -/
def danglingInputs (graph : Graph) : List Port :=
  (graph.operators.filter fun operator => !operator.isMarkerOf .begin).flatMap fun operator =>
    operator.inputs.filter fun port => !graph.isConnected port.id

/-- The outputs without consumer, apart from those of `END` terminators. -/
def danglingOutputs (graph : Graph) : List Port :=
  (graph.operators.filter fun operator => !operator.isMarkerOf .finish).flatMap fun operator =>
    operator.outputs.filter fun port => !graph.isConnected port.id

/-- Whether a terminator is not needed at an opposite: something real is there, or an earlier
terminator of the same kind. -/
def isRedundantAt (graph : Graph) (terminator : Marker) (port opposite : PortId) : Bool :=
  (graph.opposites opposite).any fun other =>
    other ≠ port &&
      (graph.owner? other).any fun owner =>
        !owner.isMarkerOf terminator || other.index < port.index

/-- What is said about a circuit. -/
def circuitFinding (graph : Graph) (circuit : OrderedSet OperatorId) : String :=
  "operator graph must be acyclic: [" ++
    String.intercalate ", " ((circuit.toList.filterMap graph.operator?).map Operator.label) ++ "]"

/-- The findings about the circuits of a graph, one for each. -/
def circuitFindings (graph : Graph) : List String :=
  graph.dependencies.circuits.map graph.circuitFinding

/-- Refuses a graph with circuits. -/
def validateAcyclic (graph : Graph) : Except Fault Unit :=
  match graph.circuitFindings with
  | [] => .ok ()
  | findings => .error (.diagnostics findings)

end Graph

/-- The terminator that an operator is, with the port that faces the rest of the graph. -/
def Operator.terminator? (operator : Operator) : Option (Marker × PortId) :=
  match operator.marker? with
  | some .begin => operator.outputs.head?.map fun port => (.begin, port.id)
  | some .finish => operator.inputs.head?.map fun port => (.finish, port.id)
  | _ => none

namespace Edit

/-- Puts a `BEGIN` terminator in front of an input. -/
def beginAt (port : Port) : Edit Unit := do
  let terminator ← add (.marker .begin port.dataType)
  let output ← look fun graph => graph.outputAt terminator 0
  connect output port.id

/-- Puts an `END` terminator behind an output. -/
def finishAt (port : Port) : Edit Unit := do
  let terminator ← add (.marker .finish port.dataType)
  let input ← look fun graph => graph.inputAt terminator 0
  connect port.id input

/-- Attaches a terminator to every dangling port, to inputs first. -/
def attachTerminators : Edit Unit := do
  let graph ← get
  graph.danglingInputs.forM beginAt
  graph.danglingOutputs.forM finishAt

/-- Detaches a terminator from the opposites at which it is redundant; tells whether one is left. -/
def detachRedundant (terminator : Marker) (port : PortId) : List PortId → Edit Bool
  | [] => return false
  | opposite :: rest => do
    let graph ← get
    if graph.isRedundantAt terminator port opposite then
      let _ ← if terminator = .begin then disconnect port opposite else disconnect opposite port
      detachRedundant terminator port rest
    else
      let _ ← detachRedundant terminator port rest
      return true

/-- Drops one terminator if no opposite needs it; tells whether it was dropped. -/
def simplifyTerminator (id : OperatorId) : Edit Bool := do
  let graph ← get
  match (graph.operator? id).bind Operator.terminator? with
  | none => return false
  | some (terminator, port) =>
    if ← detachRedundant terminator port (graph.opposites port) then return false
    let _ ← remove id
    return true

/-- Counts the edits of a list that tell that they did something. -/
def countChanges {α : Type} (edit : α → Edit Bool) : List α → Edit Nat
  | [] => return 0
  | item :: rest => do
    let changed ← edit item
    let count ← countChanges edit rest
    return (if changed then 1 else 0) + count

/-- Drops redundant terminators and those without opposite; gives how many were dropped. -/
def simplifyTerminators : Edit Nat := do
  let graph ← get
  countChanges simplifyTerminator graph.operatorIds

/-- Fails when the graph has circuits. -/
def validateAcyclic : Edit Unit := do
  match (← get).validateAcyclic with
  | .ok () => return ()
  | .error fault => throw fault

end Edit

end StagePlanner
