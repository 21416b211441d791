import Std.Data.ExtTreeMap
import StagePlanner.Dependency.Circuit
import StagePlanner.Total

/-!
# Shape of a dependency graph

Counts of vertices and arcs, the vertices at either end, the widest fans and
the longest chain.
-/

namespace StagePlanner

open Std (ExtTreeMap)

/-- Figures that describe the shape of a dependency graph. -/
structure GraphStatistics where
  vertices : Nat
  edges : Nat
  /-- Vertices that depend on nothing. -/
  sources : Nat
  /-- Vertices on which nothing depends. -/
  sinks : Nat
  maxFanIn : Nat
  maxFanOut : Nat
  /-- Vertices on the longest chain; zero when there is a circuit. -/
  criticalPath : Nat
  deriving DecidableEq, Repr

namespace DependencyGraph

variable {α : Type} [Ord α] [DecidableEq α]

/-- The largest number of a list, zero if it is empty. -/
def largest (numbers : List Nat) : Nat := numbers.foldl max 0

/-- Extends a table of chain lengths by one vertex whose dependencies are in it. -/
def chainStep (graph : DependencyGraph α) (chains : List (α × Nat)) (vertex : α) : List (α × Nat) :=
  let below := (graph.dependencies vertex).filterMap fun dependency => chains.lookup dependency
  chains ++ [(vertex, largest below + 1)]

/-- The number of vertices on the longest chain that ends in each vertex, along an order. -/
def chains (graph : DependencyGraph α) (order : List α) : List (α × Nat) :=
  order.foldl graph.chainStep []

/-- The number of vertices on the longest chain of dependencies. -/
def criticalPath (graph : DependencyGraph α) : Nat :=
  match graph.order with
  | .ok order => largest ((graph.chains order).map Prod.snd)
  | .error _ => 0

/-- The figures of a dependency graph. -/
def statistics (graph : DependencyGraph α) : GraphStatistics :=
  let fanIn := graph.vertices.toList.map fun vertex => (graph.dependencies vertex).length
  let fanOut := graph.vertices.toList.map fun vertex => (graph.dependents vertex).length
  { vertices := graph.vertices.size
    edges := graph.arcs.size
    sources := (fanIn.filter fun count => count = 0).length
    sinks := (fanOut.filter fun count => count = 0).length
    maxFanIn := largest fanIn
    maxFanOut := largest fanOut
    criticalPath := graph.criticalPath }

section Lawful

variable [Std.TransOrd α] [Std.LawfulEqOrd α]

/-- Files the dependent of an arc under the dependency, which need not have an entry yet. -/
def fileDependent (table : ExtTreeMap α (OrderedSet α))
    (arc : Arc α) : ExtTreeMap α (OrderedSet α) :=
  table.alter arc.dependency fun filed => some ((filed.getD ∅).insert arc.dependent)

/-- The dependents of every vertex, collected arc by arc. -/
def dependentsTable (graph : DependencyGraph α) : ExtTreeMap α (OrderedSet α) :=
  graph.arcs.toList.foldl fileDependent
    (.ofList (graph.vertices.toList.map fun vertex => (vertex, ∅)))

/-- The figures as they are counted: arcs as dependencies of vertices, and the ends at which nothing
depends on a vertex in the table of dependents. -/
def countedStatistics (graph : DependencyGraph α) : GraphStatistics :=
  let fanIn := graph.vertices.toList.map fun vertex => (graph.dependencies vertex).length
  let fanOut := graph.dependentsTable.toList.map fun entry => entry.2.size
  { vertices := graph.vertices.size
    edges := total fanIn
    sources := (fanIn.filter fun count => count = 0).length
    sinks := (fanOut.filter fun count => count = 0).length
    maxFanIn := largest fanIn
    maxFanOut := largest fanOut
    criticalPath := graph.criticalPath }

end Lawful

end DependencyGraph

end StagePlanner
