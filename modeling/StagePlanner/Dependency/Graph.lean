import StagePlanner.OrderedSet

/-!
# Dependency graphs

A finite set of vertices and a relation that says which vertex depends on which.
The same type serves operators, stages and groups of stages.
-/

namespace StagePlanner

/-- States that one vertex depends on another. -/
structure Arc (α : Type) where
  dependent : α
  dependency : α
  deriving DecidableEq, Repr

namespace Arc

variable {α : Type} [Ord α]

instance : Ord (Arc α) := ⟨compareLex (compareOn dependent) (compareOn dependency)⟩

instance [Std.TransOrd α] : Std.TransOrd (Arc α) :=
  inferInstanceAs
    (Std.TransCmp (compareLex (compareOn (dependent : Arc α → α)) (compareOn (dependency : Arc α → α))))

instance [Std.TransOrd α] [Std.LawfulEqOrd α] : Std.LawfulEqOrd (Arc α) where
  eq_of_compare {left right} same := by
    have both := Ordering.then_eq_eq.1
      (show (compare left.dependent right.dependent).then (compare left.dependency right.dependency) = .eq
        from same)
    have first : left.dependent = right.dependent := Std.LawfulEqCmp.eq_of_compare both.1
    have second : left.dependency = right.dependency := Std.LawfulEqCmp.eq_of_compare both.2
    cases left; cases right; cases first; cases second; rfl

end Arc

/-- Vertices and the dependencies between them. -/
structure DependencyGraph (α : Type) [Ord α] where
  vertices : OrderedSet α := ∅
  arcs : OrderedSet (Arc α) := ∅

namespace DependencyGraph

variable {α : Type} [Ord α] [DecidableEq α]

/-- The vertices that a vertex depends on, in ascending order. -/
def dependencies (graph : DependencyGraph α) (vertex : α) : List α :=
  (graph.arcs.toList.filter fun arc => arc.dependent = vertex).map Arc.dependency

/-- The vertices that depend on a vertex, in ascending order. -/
def dependents (graph : DependencyGraph α) (vertex : α) : List α :=
  (graph.arcs.toList.filter fun arc => arc.dependency = vertex).map Arc.dependent

/-- Whether a vertex belongs to the graph. -/
def contains (graph : DependencyGraph α) (vertex : α) : Bool := vertex ∈ graph.vertices

variable [Std.TransOrd α] [Std.LawfulEqOrd α]

/-- Adds a vertex. -/
def addVertex (graph : DependencyGraph α) (vertex : α) : DependencyGraph α :=
  { graph with vertices := graph.vertices.insert vertex }

/-- Adds a dependency together with both of its ends. -/
def addArc (graph : DependencyGraph α) (dependent dependency : α) : DependencyGraph α where
  vertices := (graph.vertices.insert dependency).insert dependent
  arcs := graph.arcs.insert { dependent, dependency }

/-- The graph with given vertices, extended by the arcs of a list. -/
def ofLists (vertices : List α) (arcs : List (Arc α)) : DependencyGraph α :=
  arcs.foldl (fun graph arc => graph.addArc arc.dependent arc.dependency)
    { vertices := OrderedSet.ofList vertices }

end DependencyGraph

end StagePlanner
