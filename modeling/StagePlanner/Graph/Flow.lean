import StagePlanner.Dependency.Circuit
import StagePlanner.Fault
import StagePlanner.Graph

/-!
# Flow of data through a graph

The dependencies between the operators of a graph and the operators that lie
before another one, as a set and as a search for them that has no bound.
-/

namespace StagePlanner

/-- The fault of a dependency graph that has circuits. -/
def circuitFault {kind : IdKind} (circuits : List (OrderedSet (Id kind))) : Fault :=
  .invariant (.cyclicDependencies (circuits.map fun circuit => circuit.toList.map Id.text))

namespace Graph

/-- Every operator depends on the operators that feed it. -/
def dependencies (graph : Graph) : DependencyGraph OperatorId :=
  DependencyGraph.ofLists graph.operatorIds
    (graph.operatorIds.flatMap fun id =>
      (graph.predecessors id).toList.map fun predecessor => ⟨id, predecessor⟩)

/-- The operators with a nonempty path to a start, on which every operator but the start passes a
test. -/
def ancestors (graph : Graph) (pass : Operator → Bool)
    (start : OperatorId) : OrderedSet OperatorId :=
  let passing := graph.operatorIds.filter fun id => id ≠ start && graph.holds pass id
  OrderedSet.ofList (Reach.reachable (fun id => (graph.predecessors id).toList) passing [start])

end Graph

/-! ### The search for ancestors

The operators whose predecessors are still to be looked at wait in a queue. Nothing bounds the
search; it ends when the queue is empty. -/

/-- A search for ancestors under way. -/
structure AncestorSearch where
  /-- The operators whose predecessors are still to be looked at, the next one first. -/
  queue : List OperatorId
  /-- The ancestors that are found. -/
  found : OrderedSet OperatorId
  deriving DecidableEq, Repr

namespace AncestorSearch

/-- Finds a predecessor that passes, unless it is the start or is found already. -/
def meet (graph : Graph) (pass : Operator → Bool) (start : OperatorId) (search : AncestorSearch)
    (id : OperatorId) : AncestorSearch :=
  if id = start || id ∈ search.found then search
  else if graph.holds pass id then
    { queue := search.queue ++ [id], found := search.found.insert id }
  else search

/-- Looks at the predecessors of the operators in the queue until it is empty. -/
def run (graph : Graph) (pass : Operator → Bool) (start : OperatorId)
    (search : AncestorSearch) : Option (OrderedSet OperatorId) :=
  match search.queue with
  | [] => some search.found
  | id :: rest =>
    (graph.predecessors id).toList.foldl (meet graph pass start) { search with queue := rest }
      |>.run graph pass start
partial_fixpoint

end AncestorSearch

/-- The ancestors of a start, if a search for them ends. -/
def Graph.searchAncestors (graph : Graph) (pass : Operator → Bool)
    (start : OperatorId) : Option (OrderedSet OperatorId) :=
  AncestorSearch.run graph pass start { queue := [start], found := ∅ }

end StagePlanner
