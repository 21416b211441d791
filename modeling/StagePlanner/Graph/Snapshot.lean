import StagePlanner.Digest
import StagePlanner.Graph

/-!
# Snapshots

What tells two states of one graph apart: the identifiers of its operators and
its edges. Identifiers are never used again, so along a history of edits these
two determine everything else.
-/

namespace StagePlanner

/-- The operators and edges that a graph has at some time. -/
structure Snapshot where
  operators : List OperatorId
  edges : OrderedSet Edge
  deriving DecidableEq, Repr

/-- The current operators and edges. -/
def Graph.snapshot (graph : Graph) : Snapshot where
  operators := graph.operatorIds
  edges := graph.edges

namespace Snapshot

/-- The numbers that are hashed: the operators, a number that no identifier reaches, and both
ends of every edge. -/
def numbers (snapshot : Snapshot) : List Nat :=
  snapshot.operators.map Id.index ++ (Nat.pow 2 64 - 1) ::
    snapshot.edges.toList.flatMap fun edge => [edge.source.index, edge.target.index]

/-- The digest of a snapshot. -/
def fingerprint (snapshot : Snapshot) : Digest := Digest.ofNumbers snapshot.numbers

end Snapshot

end StagePlanner
