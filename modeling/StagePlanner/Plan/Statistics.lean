import StagePlanner.Dependency.Statistics
import StagePlanner.Plan
import StagePlanner.Total

/-!
# Shape of plans

Counts of the stages of a plan and of all that they hold.
-/

namespace StagePlanner

/-- Figures that describe the shape of a plan. -/
structure PlanStatistics where
  stages : Nat
  operators : Nat
  inputs : Nat
  outputs : Nat
  connections : Nat
  /-- Operators of the largest stage. -/
  maxStageOperators : Nat
  deriving DecidableEq, Repr

/-- The figures of a plan. -/
def Plan.statistics (plan : Plan) : PlanStatistics :=
  let sizes := plan.stages.map fun stage => stage.graph.size
  { stages := plan.stages.length
    operators := total sizes
    inputs := total (plan.stages.map fun stage => stage.inputs.length)
    outputs := total (plan.stages.map fun stage => stage.outputs.length)
    connections := plan.connections.size
    maxStageOperators := DependencyGraph.largest sizes }

end StagePlanner
