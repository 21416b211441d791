import StagePlanner.Plan

/-!
# Iteration of plans

A stage runs again when one of its operators does or when a stage that feeds it
does; a port inherits the condition of what stands behind it.
-/

namespace StagePlanner

/-- When a stage runs again because of its own operators. -/
def Stage.ownIteration (stage : Stage) : Iteration :=
  Iteration.mergeAll (stage.graph.operators.filterMap fun operator => operator.traits.iteration)

/-- When stages run again and when the data of inputs change, as far as stages were visited. -/
structure IterationTable where
  stages : List (StageId × Iteration) := []
  inputs : List (PortAddress × Iteration) := []

namespace IterationTable

/-- When a stage runs again; never if it was not visited. -/
def ofStage (table : IterationTable) (id : StageId) : Iteration := (table.stages.lookup id).getD .never

/-- When the data of an input change; never if its stage was not visited. -/
def ofInput (table : IterationTable) (input : PortAddress) : Iteration :=
  (table.inputs.lookup input).getD .never

end IterationTable

namespace Plan

/-- When the data of an input change; a stage that feeds it and of which nothing is known yet does
not count. -/
def inputIteration (plan : Plan) (known : List (StageId × Iteration))
    (input : PortAddress) : Iteration :=
  Iteration.mergeAll ((plan.producers input).filterMap fun output => known.lookup output.stage)

/-- Extends a table by a stage and its inputs, from what the table has about the stages that feed
them. -/
def iterationStep (plan : Plan) (table : IterationTable)
    (id : StageId) : Except Fault IterationTable := do
  let stage ← plan.stage id
  let inputs := stage.inputs.map fun port =>
    (⟨id, port.id⟩, plan.inputIteration table.stages ⟨id, port.id⟩)
  let iteration := (inputs.map Prod.snd).foldl Iteration.merge stage.ownIteration
  return { stages := table.stages ++ [(id, iteration)], inputs := table.inputs ++ inputs }

/-- When stages run again and when the data of inputs change, found in the order of dependencies. -/
def iterations (plan : Plan) : Except Fault IterationTable := do
  let order ← plan.order
  order.foldlM plan.iterationStep {}

end Plan

end StagePlanner
