import StagePlanner.Operator.Blueprint
import StagePlanner.OrderedSet

/-!
# Operator graphs

Operators with their ports and the edges from outputs to inputs. Identifiers are
given out in ascending order and never again; a serial number stays with its
operator when the operator is copied or rebuilt.

This module holds the type and all that is read off a graph without changing it.
-/

namespace StagePlanner

/-- An edge from an output to an input. -/
structure Edge where
  source : PortId
  target : PortId
  deriving DecidableEq, Repr

namespace Edge

instance : Ord Edge := ⟨compareLex (compareOn source) (compareOn target)⟩

instance : Std.TransOrd Edge :=
  inferInstanceAs (Std.TransCmp (compareLex (compareOn source) (compareOn target)))

instance : Std.LawfulEqOrd Edge where
  eq_of_compare {left right} same := by
    have both := Ordering.then_eq_eq.1
      (show (compare left.source right.source).then (compare left.target right.target) = .eq from same)
    have sources : left.source = right.source := Std.LawfulEqCmp.eq_of_compare both.1
    have targets : left.target = right.target := Std.LawfulEqCmp.eq_of_compare both.2
    cases left; cases right; cases sources; cases targets; rfl

/-- Whether the edge starts or ends at a port. -/
def touches (edge : Edge) (port : PortId) : Bool := edge.source = port || edge.target = port

end Edge

/-- A dataflow graph of operators. -/
structure Graph where
  /-- The operators by ascending identifier. -/
  operators : List Operator := []
  edges : OrderedSet Edge := ∅
  nextOperator : OperatorId := ⟨0⟩
  nextPort : PortId := ⟨0⟩
  nextSerial : SerialNumber := ⟨0⟩
  deriving DecidableEq, Repr

/-- The side of an operator on which a port lies. -/
inductive PortSide where
  | input
  | output
  deriving DecidableEq, Repr

/-- A port together with the operator that owns it and the side on which it lies. -/
structure PortPlace where
  port : Port
  owner : Operator
  side : PortSide
  deriving DecidableEq, Repr

namespace Graph

/-- The graph without operators. -/
def empty : Graph := {}

/-- The number of operators. -/
def size (graph : Graph) : Nat := graph.operators.length

/-- The identifiers of all operators, in ascending order. -/
def operatorIds (graph : Graph) : List OperatorId := graph.operators.map Operator.id

/-- The operator with a given identifier. -/
def operator? (graph : Graph) (id : OperatorId) : Option Operator :=
  graph.operators.find? fun operator => operator.id = id

/-- Whether there is an operator with a given identifier. -/
def contains (graph : Graph) (id : OperatorId) : Bool := (graph.operator? id).isSome

/-- Whether an operator of the graph passes a test; an absent one does not. -/
def holds (graph : Graph) (test : Operator → Bool) (id : OperatorId) : Bool :=
  (graph.operator? id).any test

/-- Whether an operator of the graph is a marker. -/
def isMarker (graph : Graph) (id : OperatorId) : Bool := graph.holds Operator.isMarker id

/-- Whether an operator of the graph is a given marker. -/
def isMarkerOf (graph : Graph) (marker : Marker) (id : OperatorId) : Bool :=
  graph.holds (fun operator => operator.isMarkerOf marker) id

/-- Where a port lies on one operator. -/
def placeOn? (operator : Operator) (id : PortId) : Option PortPlace :=
  match operator.inputs.find? fun port => port.id = id with
  | some port => some { port, owner := operator, side := .input }
  | none =>
    (operator.outputs.find? fun port => port.id = id).map fun port =>
      { port, owner := operator, side := .output }

/-- Where a port lies in the graph. -/
def place? (graph : Graph) (id : PortId) : Option PortPlace :=
  graph.operators.findSome? fun operator => placeOn? operator id

/-- The port with a given identifier. -/
def port? (graph : Graph) (id : PortId) : Option Port := (graph.place? id).map PortPlace.port

/-- The operator that owns a port. -/
def owner? (graph : Graph) (id : PortId) : Option Operator := (graph.place? id).map PortPlace.owner

/-- The outputs that feed an input, in ascending order. -/
def producers (graph : Graph) (target : PortId) : List PortId :=
  (graph.edges.toList.filter fun edge => edge.target = target).map Edge.source

/-- The inputs that an output feeds, in ascending order. -/
def consumers (graph : Graph) (source : PortId) : List PortId :=
  (graph.edges.toList.filter fun edge => edge.source = source).map Edge.target

/-- The ports at the other ends of the edges of a port: producers of an input, consumers of an
output. -/
def opposites (graph : Graph) (port : PortId) : List PortId :=
  match (graph.place? port).map PortPlace.side with
  | some .input => graph.producers port
  | some .output => graph.consumers port
  | none => []

/-- Whether a port has an edge. -/
def isConnected (graph : Graph) (port : PortId) : Bool := !(graph.opposites port).isEmpty

/-- The operators that own some ports. -/
def ownersOf (graph : Graph) (ports : List PortId) : OrderedSet OperatorId :=
  OrderedSet.ofList (ports.filterMap fun port => (graph.owner? port).map Operator.id)

/-- The operators at the other ends of the edges of a port. -/
def oppositeOperators (graph : Graph) (port : PortId) : OrderedSet OperatorId :=
  graph.ownersOf (graph.opposites port)

/-- The operators that feed an operator. -/
def predecessors (graph : Graph) (id : OperatorId) : OrderedSet OperatorId :=
  match graph.operator? id with
  | none => ∅
  | some operator => graph.ownersOf (operator.inputs.flatMap fun port => graph.producers port.id)

/-- The operators that an operator feeds. -/
def successors (graph : Graph) (id : OperatorId) : OrderedSet OperatorId :=
  match graph.operator? id with
  | none => ∅
  | some operator => graph.ownersOf (operator.outputs.flatMap fun port => graph.consumers port.id)

end Graph

end StagePlanner
