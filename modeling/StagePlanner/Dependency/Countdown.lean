import StagePlanner.Dependency.Circuit

/-!
# Orders by counting down

`orderBy` asks of every waiting vertex whether its dependencies are released. The
same order comes out when every vertex has a counter of the dependencies that are
still missing: listing a vertex lowers the counters of its dependents, and a
vertex whose counter comes to zero joins the ready ones.
-/

namespace StagePlanner.DependencyGraph

variable {α : Type} [Ord α] [DecidableEq α] {ρ : Type} [Ord ρ]

/-- What is known while vertices are listed one by one. -/
structure Countdown (α ρ : Type) where
  /-- The number of missing dependencies of every vertex. -/
  pending : List (α × Nat)
  /-- The vertices that can be listed next, behind their ranks. -/
  ready : List (ρ × α)
  /-- The vertices that are listed. -/
  order : List α
  deriving Repr

namespace Countdown

/-- Whether an entry is smaller than another by rank and then by key. -/
def smaller (left right : ρ × α) : Bool :=
  (compare left.1 right.1).then (compare left.2 right.2) = .lt

/-- Takes one from the counter of a vertex, if it has one, and makes the vertex ready when nothing is
missing any more. A counter that stands at zero cannot be lowered. -/
def lower (rank : α → ρ) (state : Countdown α ρ) (vertex : α) : Option (Countdown α ρ) :=
  match state.pending.lookup vertex with
  | none => some state
  | some 0 => none
  | some (count + 1) =>
    let pending := state.pending.map fun entry =>
      if entry.1 = vertex then (vertex, count) else entry
    let ready := if count = 0 then (rank vertex, vertex) :: state.ready else state.ready
    some { state with pending, ready }

/-- Lists a ready vertex and lowers the counters of its dependents. -/
def list (graph : DependencyGraph α) (rank : α → ρ) (state : Countdown α ρ)
    (vertex : α) : Option (Countdown α ρ) :=
  (graph.dependents vertex).foldlM (lower rank)
    { state with
      ready := state.ready.eraseP fun entry => entry.2 = vertex
      order := state.order ++ [vertex] }

/-- Lists the smallest ready vertex for a number of rounds, until none is ready. -/
def run (graph : DependencyGraph α) (rank : α → ρ) :
    Nat → Countdown α ρ → Option (Countdown α ρ)
  | 0, state => some state
  | rounds + 1, state =>
    match least? smaller state.ready with
    | none => some state
    | some entry => state.list graph rank entry.2 >>= run graph rank rounds

end Countdown

/-- Every counter at the number of dependencies; ready is what depends on nothing. -/
def countdown (graph : DependencyGraph α) (rank : α → ρ) : Countdown α ρ :=
  let pending := graph.vertices.toList.map fun vertex => (vertex, (graph.dependencies vertex).length)
  { pending
    ready := (pending.filter fun entry => entry.2 = 0).map fun entry => (rank entry.1, entry.1)
    order := [] }

/-- The order of a graph by counting down, or its circuits if not every vertex gets listed; nothing
if a counter falls below zero. -/
def countedOrder (graph : DependencyGraph α)
    (rank : α → ρ) : Option (Except (List (OrderedSet α)) (List α)) := do
  let final ← Countdown.run graph rank graph.vertices.size (graph.countdown rank)
  if final.order.length = graph.vertices.size then
    return .ok final.order
  else
    return .error graph.circuits

end StagePlanner.DependencyGraph
