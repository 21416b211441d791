import StagePlanner.Annotation.Decoration
import StagePlanner.Plan.Assembly
import StagePlanner.Plan.Grouping

/-!
# Planning

From an operator graph to a decorated plan: prepare the graph, cut it at its
markers, merge what may be merged, and attach what is known about the result.
-/

namespace StagePlanner

namespace Planner

variable {ν : Type} [Volume ν]

omit [Volume ν] in
/-- How ports are compared when they are unified. -/
def equivalence (planner : Planner ν) : Equivalence :=
  if planner.isEnabled .unifyStagePorts then .byContent else .bySerial

omit [Volume ν] in
/-- The stages of a prepared graph. -/
def stage (planner : Planner ν) (prepared : Graph) : Except Fault Plan := do
  let primitive ← prepared.primitivePlan
  let groups ← primitive.groups
  primitive.assemble prepared (groups.map StageGroup.elements) .all planner.equivalence

/-- The decorated plan of a prepared graph. -/
def planPrepared (planner : Planner ν) (prepared : Graph) : Except Fault (AnnotatedPlan ν) := do
  let plan ← planner.stage prepared
  match (planner.decorate plan prepared).apply {} with
  | (.ok (), notes) => return { plan, notes }
  | (.error fault, _) => throw fault

/-- Prepares a graph and plans it; the graph stays prepared. -/
def plan (planner : Planner ν) : Edit (AnnotatedPlan ν) := do
  let _ ← planner.prepare
  match planner.planPrepared (← get) with
  | .ok plan => return plan
  | .error fault => throw fault

/-- Plans a graph and leaves it as it is. -/
def planOf (planner : Planner ν) (graph : Graph) : Except Fault (AnnotatedPlan ν) :=
  (planner.plan.apply graph).1

end Planner

end StagePlanner
