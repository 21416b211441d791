import StagePlanner.Plan

/-!
# Pruning of plans

Outputs that nobody reads are dropped, then operators that reach no output, inputs
that feed nothing, and stages without outputs.
-/

namespace StagePlanner

namespace Stage

/-- Removes outputs one by one. -/
def removeOutputs (stage : Stage) (outputs : List StagePort) : Except Fault Stage :=
  outputs.foldlM (fun stage output => stage.removeOutput output.id) stage

/-- Removes inputs one by one. -/
def removeInputs (stage : Stage) (inputs : List StagePort) : Except Fault Stage :=
  inputs.foldlM (fun stage input => stage.removeInput input.id) stage

/-- The outputs and all operators with a path to one. -/
def live (stage : Stage) : OrderedSet OperatorId :=
  stage.outputs.foldl (fun live output =>
    (live.insert output.marker).union (stage.graph.ancestors (fun _ => true) output.marker)) ∅

/-- The operators that reach no output, inputs excepted. -/
def deadOperators (stage : Stage) : List Operator :=
  let live := stage.live
  stage.graph.operators.filter fun operator =>
    operator.id ∉ live && (stage.inputAt? operator.id).isNone

/-- Removes the operators that reach no output. -/
def withoutDead (stage : Stage) : Stage :=
  { stage with graph := stage.deadOperators.foldl Graph.without stage.graph }

/-- The inputs that feed nothing. -/
def unusedInputs (stage : Stage) : List StagePort :=
  stage.inputs.filter fun input => (stage.graph.successors input.marker).isEmpty

/-- Removes what does not contribute to an output; nothing is left of a stage without outputs. -/
def prune? (stage : Stage) : Except Fault (Option Stage) :=
  if stage.outputs.isEmpty then .ok none
  else
    let alive := stage.withoutDead
    (alive.removeInputs alive.unusedInputs).map some

end Stage

namespace Plan

/-- The outputs of a stage that nobody reads, apart from those that are meant for nobody. -/
def unreadOutputs (plan : Plan) (stage : Stage) : List StagePort :=
  stage.outputs.filter fun output =>
    stage.marker? output ≠ some .finish && (plan.inputsFrom output.origins).isEmpty

/-- Removes the outputs that nobody reads. -/
def dropUnread (plan : Plan) : Except Fault Plan := do
  let stages ← plan.stages.mapM fun stage => stage.removeOutputs (plan.unreadOutputs stage)
  return { plan with stages }

/-- Removes from every stage what does not contribute to an output. -/
def prune (plan : Plan) : Except Fault Plan := do
  let stages ← plan.stages.mapM Stage.prune?
  return { plan with stages := stages.filterMap id }

end Plan

end StagePlanner
