import Mathlib.Data.List.Basic
import StagePlanner.Graph.Edit

/-!
# Arenas

The tables that a graph is kept in: operators and ports by their identifiers, and every edge twice, with
the output that it leaves and with the input that it reaches. Edits change one table after the other, and
one that fails leaves the tables as far as it came.
-/

namespace StagePlanner

open Std (ExtTreeMap)

/-- A port in the table of ports. -/
structure PortRecord extends Port where
  owner : OperatorId
  side : PortSide
  deriving DecidableEq, Repr

/-- An operator in the table of operators, with the identifiers of its ports. -/
structure OperatorRecord where
  id : OperatorId
  serial : SerialNumber
  kind : OperatorKind
  inputs : List PortId
  outputs : List PortId
  arguments : List Argument
  traits : Traits
  deriving DecidableEq, Repr

namespace OperatorRecord

/-- Every port, inputs first. -/
def ports (record : OperatorRecord) : List PortId := record.inputs ++ record.outputs

/-- The ports on one side. -/
def portsOn (record : OperatorRecord) : PortSide → List PortId
  | .input => record.inputs
  | .output => record.outputs

/-- A short text that stays the same in every copy of the operator. -/
def label (record : OperatorRecord) : String :=
  record.kind.text ++ "#" ++ toString record.serial.index

end OperatorRecord

/-- The tables of a graph. -/
structure Arena where
  operators : ExtTreeMap OperatorId OperatorRecord := ∅
  ports : ExtTreeMap PortId PortRecord := ∅
  /-- The inputs that each output feeds; an output without edges may have an empty entry. -/
  downstream : ExtTreeMap PortId (OrderedSet PortId) := ∅
  /-- The outputs that feed each input. -/
  upstream : ExtTreeMap PortId (OrderedSet PortId) := ∅
  nextOperator : OperatorId := ⟨0⟩
  nextPort : PortId := ⟨0⟩
  nextSerial : SerialNumber := ⟨0⟩

namespace Arena

/-- The inputs that an output feeds. -/
def targets (arena : Arena) (source : PortId) : OrderedSet PortId :=
  arena.downstream[source]?.getD ∅

/-- The outputs that feed an input. -/
def sources (arena : Arena) (target : PortId) : OrderedSet PortId :=
  arena.upstream[target]?.getD ∅

/-- Every edge, in ascending order. -/
def edges (arena : Arena) : List Edge :=
  arena.downstream.toList.flatMap fun (source, targets) =>
    targets.toList.map fun target => { source, target }

/-- The operator with a given identifier, or why there is none. -/
def operator (arena : Arena) (id : OperatorId) : Except GraphFault OperatorRecord :=
  match arena.operators[id]? with
  | some record => .ok record
  | none => .error (.unknownOperator id)

/-- The port with a given identifier, or why there is none. -/
def port (arena : Arena) (id : PortId) : Except GraphFault PortRecord :=
  match arena.ports[id]? with
  | some record => .ok record
  | none => .error (.unknownPort id)

/-- An input of an operator by its position. -/
def inputAt (arena : Arena) (id : OperatorId) (index : Nat) : Except GraphFault PortId := do
  let record ← arena.operator id
  match record.inputs[index]? with
  | some port => return port
  | none => throw (.noInputAt id index)

/-- An output of an operator by its position. -/
def outputAt (arena : Arena) (id : OperatorId) (index : Nat) : Except GraphFault PortId := do
  let record ← arena.operator id
  match record.outputs[index]? with
  | some port => return port
  | none => throw (.noOutputAt id index)

/-- The ports at the other ends of the edges of a port. -/
def opposites (arena : Arena) (port : PortId) : List PortId :=
  match arena.ports[port]?.map PortRecord.side with
  | some .input => (arena.sources port).toList
  | some .output => (arena.targets port).toList
  | none => []

/-- The blueprint of an operator, with its serial number. -/
def blueprint (arena : Arena) (id : OperatorId) : Except GraphFault Blueprint := do
  let record ← arena.operator id
  let inputs ← record.inputs.mapM arena.port
  let outputs ← record.outputs.mapM arena.port
  return {
    kind := record.kind
    inputs := inputs.map fun port => port.toPortShape
    outputs := outputs.map fun port => port.toPortShape
    arguments := record.arguments
    traits := record.traits
    serial := some record.serial }

/-- Adds ports to one side of an operator. -/
def addPorts (owner : OperatorId) (side : PortSide) (arena : Arena) :
    List PortShape → List PortId × Arena
  | [] => ([], arena)
  | shape :: rest =>
    let id := arena.nextPort
    let (ids, filled) := addPorts owner side
      { arena with
        ports := arena.ports.insert id { shape with id, owner, side }
        nextPort := id.next } rest
    (id :: ids, filled)

/-- The serial number to give out after an operator with a chosen one: a higher one than that, except
that after the last number of 64 bits they start again at zero. -/
def serialAfter (arena : Arena) (chosen : SerialNumber) : SerialNumber :=
  if arena.nextSerial.index ≤ chosen.index then ⟨chosen.next.index % Nat.pow 2 64⟩
  else arena.nextSerial

/-- Adds an operator; its inputs get their identifiers before its outputs. -/
def add (arena : Arena) (blueprint : Blueprint) : OperatorId × Arena :=
  let id := arena.nextOperator
  let serial := blueprint.serial.getD arena.nextSerial
  let counted := { arena with
    nextOperator := id.next
    nextSerial := blueprint.serial.elim arena.nextSerial.next arena.serialAfter }
  let (inputs, withInputs) := counted.addPorts id .input blueprint.inputs
  let (outputs, withPorts) := withInputs.addPorts id .output blueprint.outputs
  let record : OperatorRecord :=
    { id, serial, kind := blueprint.kind, inputs, outputs, arguments := blueprint.arguments
      traits := blueprint.traits }
  (id, { withPorts with operators := withPorts.operators.insert id record })

/-- Enters an edge with both of its ports. -/
def link (arena : Arena) (source target : PortId) : Arena :=
  { arena with
    downstream := arena.downstream.alter source fun found => some ((found.getD ∅).insert target)
    upstream := arena.upstream.alter target fun found => some ((found.getD ∅).insert source) }

/-- Strikes an edge out with both of its ports. -/
def unlink (arena : Arena) (source target : PortId) : Arena :=
  { arena with
    downstream := arena.downstream.modify source fun targets => targets.erase target
    upstream := arena.upstream.modify target fun sources => sources.erase source }

/-- The arena with an edge from an output to an input. -/
def connected (arena : Arena) (source target : PortId) : Except GraphFault Arena := do
  let start ← arena.port source
  let finish ← arena.port target
  if start.side ≠ .output || finish.side ≠ .input then throw (.wrongDirection source target)
  return arena.link source target

/-- Removes every edge of a port, whichever end of the edge it is. -/
def detach (arena : Arena) (port : PortId) : Arena :=
  (arena.opposites port).foldl (fun arena other => (arena.unlink port other).unlink other port) arena

/-- Removes a port with its edges. -/
def dropPort (arena : Arena) (port : PortId) : Arena :=
  let detached := arena.detach port
  { detached with ports := detached.ports.erase port }

/-- Removes an operator, and then its ports and edges. -/
def without (arena : Arena) (record : OperatorRecord) : Arena :=
  record.ports.foldl dropPort { arena with operators := arena.operators.erase record.id }

end Arena

/-- A change of an arena that gives a result or fails; either way the arena it leaves is known. -/
abbrev ArenaEdit (α : Type) := ExceptT Fault (StateM Arena) α

namespace ArenaEdit

/-- The result of an edit and the arena that it leaves. -/
def apply {α : Type} (edit : ArenaEdit α) (arena : Arena) : Except Fault α × Arena :=
  edit.run.run arena

/-- Fails because of the graph. -/
def refuse {α : Type} (cause : GraphFault) : ArenaEdit α := throw (.graph cause)

/-- Looks something up in the arena. -/
def look {α : Type} (question : Arena → Except GraphFault α) : ArenaEdit α := do
  match question (← get) with
  | .ok answer => return answer
  | .error cause => refuse cause

/-- Adds an operator. -/
def add (blueprint : Blueprint) : ArenaEdit OperatorId := modifyGet fun arena => arena.add blueprint

/-- Removes an operator with its ports and edges. -/
def remove (id : OperatorId) : ArenaEdit OperatorRecord := do
  let record ← look fun arena => arena.operator id
  modify fun arena => arena.without record
  return record

/-- Connects an output with an input. -/
def connect (source target : PortId) : ArenaEdit Unit := do
  set (← look fun arena => arena.connected source target)

/-- Removes an edge; tells whether it was there. -/
def disconnect (source target : PortId) : ArenaEdit Bool := do
  let arena ← get
  set (arena.unlink source target)
  return target ∈ arena.targets source

/-- Removes every edge of a port. -/
def disconnectAll (port : PortId) : ArenaEdit Unit := modify fun arena => arena.detach port

/-- Refuses a blueprint that cannot stand on an edge. -/
def requirePassThrough (blueprint : Blueprint) : ArenaEdit Unit :=
  if blueprint.isPassThrough then pure () else refuse (.notPassThrough blueprint.kind.text)

/-- Puts a new operator in front of an input: all that fed the input feeds the new operator, which
feeds the input. -/
def insertBefore (input : PortId) (blueprint : Blueprint) : ArenaEdit OperatorId := do
  requirePassThrough blueprint
  let record ← look fun arena => arena.port input
  if record.side ≠ .input then refuse (.notInput input)
  let id ← add blueprint
  let newInput ← look fun arena => arena.inputAt id 0
  let newOutput ← look fun arena => arena.outputAt id 0
  ((← get).opposites input).forM fun producer => do
    let _ ← disconnect producer input
    connect producer newInput
  connect newOutput input
  return id

/-- Puts a new operator behind an output: it feeds all that the output fed, and the output feeds
it. -/
def insertAfter (output : PortId) (blueprint : Blueprint) : ArenaEdit OperatorId := do
  requirePassThrough blueprint
  let record ← look fun arena => arena.port output
  if record.side ≠ .output then refuse (.notOutput output)
  let id ← add blueprint
  let newInput ← look fun arena => arena.inputAt id 0
  let newOutput ← look fun arena => arena.outputAt id 0
  ((← get).opposites output).forM fun consumer => do
    let _ ← disconnect output consumer
    connect newOutput consumer
  connect output newInput
  return id

/-- Removes an operator with one input and one output and connects what fed it with what it fed. -/
def bypass (id : OperatorId) : ArenaEdit Unit := do
  let record ← look fun arena => arena.operator id
  match record.inputs, record.outputs with
  | [input], [output] =>
    let producers := (← get).opposites input
    let consumers := (← get).opposites output
    let _ ← remove id
    producers.forM fun producer => consumers.forM fun consumer => connect producer consumer
  | _, _ => refuse (.cannotBypass record.label)

/-- Replaces an operator by a changed copy; edges are carried over port by port, so the change has
to keep the number of inputs and outputs. -/
def rebuild (id : OperatorId) (change : Blueprint → Blueprint) : ArenaEdit OperatorId := do
  let blueprint := change (← look fun arena => arena.blueprint id)
  let old ← look fun arena => arena.operator id
  if blueprint.inputs.length ≠ old.inputs.length ||
      blueprint.outputs.length ≠ old.outputs.length then
    refuse (.layoutChanged old.label)
  let copy ← add blueprint
  let new ← look fun arena => arena.operator copy
  (old.inputs.zip new.inputs).forM fun (oldPort, newPort) => do
    ((← get).opposites oldPort).forM fun producer => connect producer newPort
  (old.outputs.zip new.outputs).forM fun (oldPort, newPort) => do
    ((← get).opposites oldPort).forM fun consumer => connect newPort consumer
  let _ ← remove id
  return copy

end ArenaEdit

/-- What a call does to an arena. -/
def EditCall.onArena : EditCall → ArenaEdit EditAnswer
  | .add blueprint => return .created (← ArenaEdit.add blueprint)
  | .remove id => do
    let record ← ArenaEdit.remove id
    return .removed record.label record.inputs record.outputs
  | .connect source target => do
    ArenaEdit.connect source target
    return .done
  | .disconnect source target => return .wasThere (← ArenaEdit.disconnect source target)
  | .disconnectAll port => do
    ArenaEdit.disconnectAll port
    return .done
  | .insertBefore input blueprint => return .created (← ArenaEdit.insertBefore input blueprint)
  | .insertAfter output blueprint => return .created (← ArenaEdit.insertAfter output blueprint)
  | .bypass id => do
    ArenaEdit.bypass id
    return .done
  | .rebuild id change => return .created (← ArenaEdit.rebuild id change)

/-- A part of an arena in an arena of its own. -/
structure ArenaCopy where
  arena : Arena
  /-- The original of each copied operator. -/
  origins : ExtTreeMap OperatorId OperatorId := ∅
  /-- The copy of each copied port. -/
  ports : ExtTreeMap PortId PortId := ∅

namespace Arena

/-- Adds the copy of one operator. -/
def copyOperator (original : Arena) (copied : ArenaCopy)
    (id : OperatorId) : Except GraphFault ArenaCopy := do
  let record ← original.operator id
  let (copy, arena) := copied.arena.add (← original.blueprint id)
  let created ← arena.operator copy
  return {
    arena
    origins := copied.origins.insert copy id
    ports := (record.ports.zip created.ports).foldl
      (fun ports (old, new) => ports.insert old new) copied.ports }

/-- Adds the copy of an edge both ends of which are copied, if a test accepts the owners of its
ends. -/
def copyEdge (original : Arena) (keep : OperatorId → OperatorId → Bool) (copied : ArenaCopy)
    (edge : Edge) : Except GraphFault ArenaCopy :=
  match copied.ports[edge.source]?, copied.ports[edge.target]? with
  | some source, some target => do
    let start ← original.port edge.source
    let finish ← original.port edge.target
    if keep start.owner finish.owner then
      return { copied with arena := ← copied.arena.connected source target }
    else return copied
  | _, _ => return copied

/-- Copies some operators and those edges between them whose ends a test accepts. -/
def copyOf (arena : Arena) (members : OrderedSet OperatorId)
    (keep : OperatorId → OperatorId → Bool) : Except GraphFault ArenaCopy := do
  let copied ← members.toList.foldlM arena.copyOperator { arena := { nextSerial := arena.nextSerial } }
  arena.edges.foldlM (arena.copyEdge keep) copied

end Arena

end StagePlanner
