import StagePlanner.Graph.Edit

/-!
# Copies of parts of a graph

A copy holds some operators of a graph under new identifiers, with the edges
between them that a test accepts. Serial numbers stay what they were.
-/

namespace StagePlanner

/-- Which operator or port of a copy stands for which one of its source. -/
structure CopiedPair (kind : IdKind) where
  copy : Id kind
  source : Id kind
  deriving DecidableEq, Repr

/-- A copied part of a graph. -/
structure GraphCopy where
  graph : Graph
  /-- The copied operators by ascending identifier. -/
  origins : List (CopiedPair .operator) := []
  ports : List (CopiedPair .port) := []
  deriving DecidableEq, Repr

namespace GraphCopy

/-- Adds a copy of one operator. -/
def addOperator (copied : GraphCopy) (operator : Operator) : GraphCopy :=
  let (id, graph) := copied.graph.add operator.blueprint
  let created := ((graph.operator? id).map Operator.ports).getD []
  { graph
    origins := copied.origins ++ [⟨id, operator.id⟩]
    ports := copied.ports ++
      List.zipWith (fun (new old : Port) => ⟨new.id, old.id⟩) created operator.ports }

/-- The copy of a port. -/
def portCopy? (copied : GraphCopy) (source : PortId) : Option PortId :=
  (copied.ports.find? fun pair => pair.source = source).map CopiedPair.copy

/-- Adds the copy of an edge both ends of which are copied. -/
def addEdge (copied : GraphCopy) (edge : Edge) : GraphCopy :=
  match copied.portCopy? edge.source, copied.portCopy? edge.target with
  | some source, some target => { copied with graph := copied.graph.link source target }
  | _, _ => copied

end GraphCopy

namespace Graph

/-- Whether a test accepts the owners of the ends of an edge. -/
def acceptsEdge (graph : Graph) (keep : OperatorId → OperatorId → Bool) (edge : Edge) : Bool :=
  match graph.owner? edge.source, graph.owner? edge.target with
  | some source, some target => keep source.id target.id
  | _, _ => false

/-- Copies some operators and those edges between them whose ends a test accepts. -/
def copyOf (graph : Graph) (members : OrderedSet OperatorId)
    (keep : OperatorId → OperatorId → Bool) : Except GraphFault GraphCopy := do
  let operators ← members.toList.mapM graph.operator
  let start : GraphCopy := { graph := { nextSerial := graph.nextSerial } }
  let copied := operators.foldl GraphCopy.addOperator start
  return (graph.edges.toList.filter (graph.acceptsEdge keep)).foldl GraphCopy.addEdge copied

end Graph

end StagePlanner
