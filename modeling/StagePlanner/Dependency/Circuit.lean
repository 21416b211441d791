import StagePlanner.Dependency.Graph

/-!
# Orders and circuits

A dependency graph either has an order in which every vertex follows its
dependencies, or it has circuits. `order` releases vertices one by one, always
the smallest of those that are ready; what can never be released contains every
circuit, and `circuits` finds them there.
-/

/-! ### Reachability

The vertices of a finite set that can be reached by at least one step from some start. The search
keeps the vertices that it has not seen yet, so each vertex is found at most once, and as many rounds
as there are starts and vertices are enough. -/

namespace StagePlanner.Reach

variable {α : Type} [DecidableEq α]

/-- Visits the work list in order; vertices found for the first time join its end. -/
def explore (next : α → List α) : Nat → List α → List α → List α → List α
  | 0, _, _, seen => seen
  | _ + 1, _, [], seen => seen
  | rounds + 1, unseen, item :: work, seen =>
    let steps := next item
    let found := unseen.filter fun other => other ∈ steps
    explore next rounds (unseen.filter fun other => other ∉ steps) (work ++ found) (seen ++ found)

/-- The vertices of a list with a nonempty path from a start, all steps of which stay inside it. -/
def reachable (next : α → List α) (vertices starts : List α) : List α :=
  explore next (starts.length + vertices.length) vertices starts []

end StagePlanner.Reach

namespace StagePlanner.DependencyGraph

variable {α : Type} [Ord α] [DecidableEq α]

/-- A vertex and the vertices that it depends on. -/
abbrev Row (α : Type) := α × List α

/-- One row for every vertex. -/
def rows (graph : DependencyGraph α) : List (Row α) :=
  graph.vertices.toList.map fun vertex => (vertex, graph.dependencies vertex)

/-- The first of the smallest items of a list. -/
def least? (smaller : α → α → Bool) : List α → Option α
  | [] => none
  | head :: tail =>
    match least? smaller tail with
    | none => some head
    | some best => if smaller best head then some best else some head

/-- Whether a vertex comes before another by rank and then by key. -/
def precedes {ρ : Type} [Ord ρ] (rank : α → ρ) (left right : α) : Bool :=
  (compare (rank left) (rank right)).then (compare left right) = .lt

/-- The waiting vertices all of whose dependencies are released. -/
def ready (waiting : List (Row α)) (released : List α) : List α :=
  (waiting.filter fun row => row.2.all fun dependency => dependency ∈ released).map Prod.fst

/-- Releases ready vertices, the smallest first, until none is ready; gives the released vertices in
order and the rows that are still waiting. -/
def release {ρ : Type} [Ord ρ] (rank : α → ρ) :
    Nat → List (Row α) → List α → List α × List (Row α)
  | 0, waiting, released => (released, waiting)
  | rounds + 1, waiting, released =>
    match least? (precedes rank) (ready waiting released) with
    | none => (released, waiting)
    | some vertex =>
      release rank rounds (waiting.filter fun row => row.1 ≠ vertex) (released ++ [vertex])

/-- Releases what can be released of a whole graph. -/
def releaseAll {ρ : Type} [Ord ρ] (graph : DependencyGraph α)
    (rank : α → ρ) : List α × List (Row α) :=
  release rank graph.vertices.size graph.rows []

/-- The vertices that are never released. -/
def stuck (graph : DependencyGraph α) : OrderedSet α :=
  let waiting := (graph.releaseAll fun vertex => vertex).2.map Prod.fst
  graph.vertices.filter fun vertex => vertex ∈ waiting

/-- The strongly connected components with more than one vertex and the vertices that depend on
themselves, ordered by their smallest vertices. -/
def circuits (graph : DependencyGraph α) : List (OrderedSet α) :=
  let stuck := graph.stuck
  let rows := graph.rows.filter fun row => row.1 ∈ stuck
  let next (vertex : α) : List α := (rows.lookup vertex).getD []
  let reach := stuck.toList.map fun vertex => (vertex, Reach.reachable next stuck.toList [vertex])
  let reaches (source target : α) : Bool := target ∈ (reach.lookup source).getD []
  stuck.toList.filterMap fun vertex =>
    let circuit := stuck.filter fun other => reaches vertex other && reaches other vertex
    if circuit.min? = some vertex then some circuit else none

/-- Whether a strongly connected component is a circuit: it has several vertices, or one that depends
on itself. -/
def isCircuit (graph : DependencyGraph α) (component : List α) : Bool :=
  1 < component.length || component.any fun vertex => vertex ∈ graph.dependencies vertex

section Lawful

variable [Std.TransOrd α] [Std.LawfulEqOrd α]

/-- The circuits among the strongly connected components of a graph, each as a set, in ascending
order. -/
def circuitsAmong (graph : DependencyGraph α) (components : List (List α)) : List (OrderedSet α) :=
  ((components.filter graph.isCircuit).map OrderedSet.ofList).mergeSort fun left right =>
    (compare left right).isLE

end Lawful

/-- Every vertex after its dependencies, the smallest by rank and key first wherever there is a
choice; or the circuits that make this impossible. -/
def orderBy {ρ : Type} [Ord ρ] (graph : DependencyGraph α)
    (rank : α → ρ) : Except (List (OrderedSet α)) (List α) :=
  match graph.releaseAll rank with
  | (released, []) => .ok released
  | (_, _ :: _) => .error graph.circuits

/-- Every vertex after its dependencies, the smallest key first wherever there is a choice. -/
def order (graph : DependencyGraph α) : Except (List (OrderedSet α)) (List α) :=
  graph.orderBy fun vertex => vertex

/-- Whether the graph has no circuit. -/
def isAcyclic (graph : DependencyGraph α) : Bool := graph.circuits.isEmpty

end StagePlanner.DependencyGraph
