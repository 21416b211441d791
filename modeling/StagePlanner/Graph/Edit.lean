import StagePlanner.Fault
import StagePlanner.Graph

/-!
# Editing operator graphs

The operations that change a graph. An edit that fails reports its cause together
with the graph as the failure left it, so a sequence of edits shows how far it
came.
-/

namespace StagePlanner

/-- A change of a graph that gives a result or fails; either way the graph it leaves is known. -/
abbrev Edit (α : Type) := ExceptT Fault (StateM Graph) α

namespace Edit

/-- The result of an edit and the graph that it leaves. -/
def apply {α : Type} (edit : Edit α) (graph : Graph) : Except Fault α × Graph := edit.run.run graph

/-- Fails because of the graph. -/
def refuse {α : Type} (cause : GraphFault) : Edit α := throw (.graph cause)

end Edit

namespace Graph

/-- Gives out the identifiers of some ports in order. -/
def assignPorts (first : PortId) (shapes : List PortShape) : List Port :=
  shapes.zipIdx.map fun (shape, offset) => { shape with id := ⟨first.index + offset⟩ }

/-- The serial number to give out after a chosen one: a higher one than that, except that after the
last number of 64 bits they start again at zero. -/
def serialAfter (graph : Graph) (chosen : SerialNumber) : SerialNumber :=
  if graph.nextSerial.index ≤ chosen.index then ⟨chosen.next.index % Nat.pow 2 64⟩
  else graph.nextSerial

/-- Adds an operator; its inputs get their identifiers before its outputs. -/
def add (graph : Graph) (blueprint : Blueprint) : OperatorId × Graph :=
  let id := graph.nextOperator
  let serial := blueprint.serial.getD graph.nextSerial
  let inputs := assignPorts graph.nextPort blueprint.inputs
  let firstOutput : PortId := ⟨graph.nextPort.index + blueprint.inputs.length⟩
  let outputs := assignPorts firstOutput blueprint.outputs
  let operator : Operator :=
    { id, serial, kind := blueprint.kind, inputs, outputs, arguments := blueprint.arguments
      traits := blueprint.traits }
  (id,
    { graph with
      operators := graph.operators ++ [operator]
      nextOperator := id.next
      nextPort := ⟨firstOutput.index + blueprint.outputs.length⟩
      nextSerial := blueprint.serial.elim graph.nextSerial.next graph.serialAfter })

/-- Removes the edges of some ports. -/
def detach (graph : Graph) (ports : List PortId) : Graph :=
  { graph with edges := graph.edges.filter fun edge => !ports.any edge.touches }

/-- Removes an operator with its ports and edges. -/
def without (graph : Graph) (operator : Operator) : Graph :=
  let detached := graph.detach (operator.ports.map fun port => port.id)
  { detached with operators := detached.operators.filter fun other => other.id ≠ operator.id }

/-- Adds an edge; an edge that is there already is not added again. -/
def link (graph : Graph) (source target : PortId) : Graph :=
  { graph with edges := graph.edges.insert { source, target } }

/-- Removes an edge. -/
def unlink (graph : Graph) (source target : PortId) : Graph :=
  { graph with edges := graph.edges.erase { source, target } }

/-- The operator with a given identifier, or why there is none. -/
def operator (graph : Graph) (id : OperatorId) : Except GraphFault Operator :=
  match graph.operator? id with
  | some operator => .ok operator
  | none => .error (.unknownOperator id)

/-- Where a port lies, or why it lies nowhere. -/
def place (graph : Graph) (id : PortId) : Except GraphFault PortPlace :=
  match graph.place? id with
  | some place => .ok place
  | none => .error (.unknownPort id)

/-- An input of an operator by its position. -/
def inputAt (graph : Graph) (id : OperatorId) (index : Nat) : Except GraphFault PortId := do
  let operator ← graph.operator id
  match operator.inputs[index]? with
  | some port => return port.id
  | none => throw (.noInputAt id index)

/-- An output of an operator by its position. -/
def outputAt (graph : Graph) (id : OperatorId) (index : Nat) : Except GraphFault PortId := do
  let operator ← graph.operator id
  match operator.outputs[index]? with
  | some port => return port.id
  | none => throw (.noOutputAt id index)

/-- The first input of an operator with a given name. -/
def inputNamed (graph : Graph) (id : OperatorId) (name : String) : Except GraphFault PortId := do
  let operator ← graph.operator id
  match operator.inputs.find? fun port => port.name == name with
  | some port => return port.id
  | none => throw (.noInputNamed operator.label name)

/-- The first output of an operator with a given name. -/
def outputNamed (graph : Graph) (id : OperatorId) (name : String) : Except GraphFault PortId := do
  let operator ← graph.operator id
  match operator.outputs.find? fun port => port.name == name with
  | some port => return port.id
  | none => throw (.noOutputNamed operator.label name)

end Graph

namespace Edit

/-- Looks something up in the graph. -/
def look {α : Type} (question : Graph → Except GraphFault α) : Edit α := do
  match question (← get) with
  | .ok answer => return answer
  | .error cause => refuse cause

/-- Adds an operator. -/
def add (blueprint : Blueprint) : Edit OperatorId := modifyGet fun graph => graph.add blueprint

/-- Removes an operator with its ports and edges. -/
def remove (id : OperatorId) : Edit Operator := do
  let operator ← look fun graph => graph.operator id
  modify fun graph => graph.without operator
  return operator

/-- Connects an output with an input. -/
def connect (source target : PortId) : Edit Unit := do
  let start ← look fun graph => graph.place source
  let finish ← look fun graph => graph.place target
  if start.side ≠ .output || finish.side ≠ .input then refuse (.wrongDirection source target)
  modify fun graph => graph.link source target

/-- Removes an edge; tells whether it was there. -/
def disconnect (source target : PortId) : Edit Bool := do
  let graph ← get
  set (graph.unlink source target)
  return { source, target } ∈ graph.edges

/-- Removes every edge of a port. -/
def disconnectAll (port : PortId) : Edit Unit := modify fun graph => graph.detach [port]

/-- Refuses a blueprint that cannot stand on an edge. -/
def requirePassThrough (blueprint : Blueprint) : Edit Unit :=
  if blueprint.isPassThrough then pure () else refuse (.notPassThrough blueprint.kind.text)

/-- Puts a new operator in front of an input: all that fed the input feeds the new operator, which
feeds the input. -/
def insertBefore (input : PortId) (blueprint : Blueprint) : Edit OperatorId := do
  requirePassThrough blueprint
  let place ← look fun graph => graph.place input
  if place.side ≠ .input then refuse (.notInput input)
  let id ← add blueprint
  let newInput ← look fun graph => graph.inputAt id 0
  let newOutput ← look fun graph => graph.outputAt id 0
  ((← get).opposites input).forM fun producer => do
    let _ ← disconnect producer input
    connect producer newInput
  connect newOutput input
  return id

/-- Puts a new operator behind an output: it feeds all that the output fed, and the output feeds
it. -/
def insertAfter (output : PortId) (blueprint : Blueprint) : Edit OperatorId := do
  requirePassThrough blueprint
  let place ← look fun graph => graph.place output
  if place.side ≠ .output then refuse (.notOutput output)
  let id ← add blueprint
  let newInput ← look fun graph => graph.inputAt id 0
  let newOutput ← look fun graph => graph.outputAt id 0
  ((← get).opposites output).forM fun consumer => do
    let _ ← disconnect output consumer
    connect newOutput consumer
  connect output newInput
  return id

/-- Removes an operator with one input and one output and connects what fed it with what it fed. -/
def bypass (id : OperatorId) : Edit Unit := do
  let operator ← look fun graph => graph.operator id
  match operator.inputs, operator.outputs with
  | [input], [output] =>
    let producers := (← get).opposites input.id
    let consumers := (← get).opposites output.id
    let _ ← remove id
    producers.forM fun producer => consumers.forM fun consumer => connect producer consumer
  | _, _ => refuse (.cannotBypass operator.label)

/-- Replaces an operator by a changed copy; edges are carried over port by port, so the change has
to keep the number of inputs and outputs. -/
def rebuild (id : OperatorId) (change : Blueprint → Blueprint) : Edit OperatorId := do
  let old ← look fun graph => graph.operator id
  let blueprint := change old.blueprint
  if blueprint.inputs.length ≠ old.inputs.length ||
      blueprint.outputs.length ≠ old.outputs.length then
    refuse (.layoutChanged old.label)
  let copy ← add blueprint
  let new ← look fun graph => graph.operator copy
  (old.inputs.zip new.inputs).forM fun (oldPort, newPort) => do
    ((← get).opposites oldPort.id).forM fun producer => connect producer newPort.id
  (old.outputs.zip new.outputs).forM fun (oldPort, newPort) => do
    ((← get).opposites oldPort.id).forM fun consumer => connect newPort.id consumer
  let _ ← remove id
  return copy

/-- Sets the condition of iteration of an operator; gives the one it had. -/
def setIteration (id : OperatorId) (iteration : Iteration) : Edit (Option Iteration) := do
  let operator ← look fun graph => graph.operator id
  let changed := { operator with traits := { operator.traits with iteration := some iteration } }
  modify fun graph =>
    let operators := graph.operators.map fun other => if other.id = id then changed else other
    { graph with operators }
  return operator.traits.iteration

end Edit

/-! ### Calls

An edit as it is asked for from outside: a call names the edit with its arguments, and an answer is
what the caller gets to see of the result. -/

/-- A request to change a graph. -/
inductive EditCall where
  | add (blueprint : Blueprint)
  | remove (id : OperatorId)
  | connect (source target : PortId)
  | disconnect (source target : PortId)
  | disconnectAll (port : PortId)
  | insertBefore (input : PortId) (blueprint : Blueprint)
  | insertAfter (output : PortId) (blueprint : Blueprint)
  | bypass (id : OperatorId)
  | rebuild (id : OperatorId) (change : Blueprint → Blueprint)

/-- What a request is answered with. -/
inductive EditAnswer where
  | done
  /-- The operator that is new in the graph. -/
  | created (id : OperatorId)
  /-- The operator that is gone, with its ports. -/
  | removed (label : String) (inputs outputs : List PortId)
  /-- Whether an edge that is not there now was there before. -/
  | wasThere (before : Bool)
  deriving DecidableEq, Repr

/-- The edit that a call asks for. -/
def EditCall.edit : EditCall → Edit EditAnswer
  | .add blueprint => return .created (← Edit.add blueprint)
  | .remove id => do
    let operator ← Edit.remove id
    return .removed operator.label (operator.inputs.map Port.id) (operator.outputs.map Port.id)
  | .connect source target => do
    Edit.connect source target
    return .done
  | .disconnect source target => return .wasThere (← Edit.disconnect source target)
  | .disconnectAll port => do
    Edit.disconnectAll port
    return .done
  | .insertBefore input blueprint => return .created (← Edit.insertBefore input blueprint)
  | .insertAfter output blueprint => return .created (← Edit.insertAfter output blueprint)
  | .bypass id => do
    Edit.bypass id
    return .done
  | .rebuild id change => return .created (← Edit.rebuild id change)

end StagePlanner
