import StagePlanner.Annotation.Size
import StagePlanner.Plan.Iteration
import StagePlanner.Plan.Naming
import StagePlanner.Plan.Parameter
import StagePlanner.Preparation

/-!
# Decoration of plans

The passes that attach notes to a finished plan. A pass that fails attaches
nothing; the notes of the passes before it stay.
-/

namespace StagePlanner

/-- An addition to notes that may fail; the notes that it leaves are known either way. -/
abbrev Annotating (ν : Type) (α : Type) := ExceptT Fault (StateM (Notes ν)) α

namespace Annotating

variable {ν : Type}

/-- The value of a computation that needs no notes. -/
def ofExcept {α : Type} : Except Fault α → Annotating ν α
  | .ok value => return value
  | .error fault => throw fault

/-- The notes that a computation leaves, and whether it failed. -/
def apply {α : Type} (annotating : Annotating ν α) (notes : Notes ν) : Except Fault α × Notes ν :=
  annotating.run.run notes

end Annotating

/-- The roles of one stage and its ports. -/
structure StageRoles where
  stage : StageId × StageRole
  inputs : List (StagePortId × InputRole)
  outputs : List (StagePortId × OutputRole)

/-- Pairs an identifier with what a computation gives for it. -/
def labelled {ι α β : Type} (key : α → ι) (compute : α → Except Fault β)
    (item : α) : Except Fault (ι × β) := do
  let value ← compute item
  return (key item, value)

/-- The roles of a stage and its ports. -/
def Stage.roles (stage : Stage) (prepared : Graph) : Except Fault StageRoles := do
  let role ← stage.role prepared
  let inputs ← stage.inputs.mapM (labelled StagePort.id stage.inputRole)
  let outputs ← stage.outputs.mapM (labelled StagePort.id stage.outputRole)
  return { stage := (stage.id, role), inputs, outputs }

namespace Plan

variable {ν : Type}

/-- Attaches the roles of all stages and ports. -/
def attachRoles (plan : Plan) (prepared : Graph) : Annotating ν Unit := do
  let roles ← Annotating.ofExcept (plan.stages.mapM fun stage => stage.roles prepared)
  modify (Notes.attachStages (fun role notes => { notes with role := some role })
    (roles.map StageRoles.stage))
  modify (Notes.attachPorts (fun role notes => { notes with inputRole := some role })
    (roles.flatMap StageRoles.inputs))
  modify (Notes.attachPorts (fun role notes => { notes with outputRole := some role })
    (roles.flatMap StageRoles.outputs))

/-- Attaches the names of all stages and ports. -/
def attachNames (plan : Plan) : Annotating ν Unit := do
  let names ← Annotating.ofExcept plan.stageNames
  modify (Notes.attachStages (fun name notes => { notes with name := some name }) names)
  modify (Notes.attachPorts (fun name notes => { notes with name := some name }) plan.portNames)

/-- Attaches the tables of all broadcasts. -/
def attachBroadcasts (plan : Plan) : Annotating ν Unit := do
  let tables := plan.stages.flatMap fun stage =>
    stage.ports.filterMap fun port => (stage.broadcastTable? port).map fun table => (port.id, table)
  modify (Notes.attachPorts (fun table notes => { notes with broadcast := some table }) tables)

/-- Attaches the conditions of iteration of the plan, its stages and its ports. -/
def attachIteration (plan : Plan) : Annotating ν Unit := do
  let table ← Annotating.ofExcept plan.iterations
  let stages := plan.stages.map fun stage => (stage.id, table.ofStage stage.id)
  let inputs := plan.stages.flatMap fun stage =>
    stage.inputs.map fun port => (port.id, table.ofInput ⟨stage.id, port.id⟩)
  let outputs := plan.stages.flatMap fun stage =>
    stage.outputs.map fun port => (port.id, table.ofStage stage.id)
  modify (Notes.attachPorts (fun iteration notes => { notes with iteration := some iteration })
    (inputs ++ outputs))
  modify (Notes.attachStages (fun iteration notes => { notes with iteration := some iteration }) stages)
  modify fun notes =>
    { notes with plan :=
        { notes.plan with iteration := some (Iteration.mergeAll (stages.map Prod.snd)) } }

/-- Attaches the parameters to which the plan refers. -/
def attachParameters (plan : Plan) : Annotating ν Unit :=
  modify fun notes => { notes with plan := { notes.plan with parameters := some plan.parameters } }

/-- Attaches the shape of the stage graph and of every stage. -/
def attachGraphStatistics (plan : Plan) : Annotating ν Unit := do
  let stages := plan.stages.map fun stage => (stage.id, stage.graph.dependencies.statistics)
  modify (Notes.attachStages (fun figures notes => { notes with statistics := some figures }) stages)
  modify fun notes =>
    { notes with plan := { notes.plan with graphStatistics := some plan.dependencies.statistics } }

/-- Attaches the shape of the plan. -/
def attachPlanStatistics (plan : Plan) : Annotating ν Unit :=
  modify fun notes =>
    { notes with plan := { notes.plan with planStatistics := some plan.statistics } }

end Plan

namespace Planner

variable {ν : Type} [Volume ν]

/-- Attaches the expected volumes of all ports. -/
def attachSizes (planner : Planner ν) (plan : Plan) (prepared : Graph) : Annotating ν Unit :=
  modify (Notes.attachPorts (fun volume notes => { notes with size := some volume })
    (plan.volumes prepared (planner.estimator.estimate prepared)))

/-- Attaches the size classes of all shuffled ports. -/
def attachPartitionSizes (planner : Planner ν) (plan : Plan) : Annotating ν Unit :=
  modify fun notes =>
    notes.attachPorts (fun size noted => { noted with partitionSize := some size })
      (notes.partitionSizes planner.config plan)

/-- Attaches all notes that the configuration asks for. -/
def decorate (planner : Planner ν) (plan : Plan) (prepared : Graph) : Annotating ν Unit := do
  plan.attachRoles prepared
  plan.attachNames
  plan.attachBroadcasts
  if planner.isEnabled .sizeEstimation then
    planner.attachSizes plan prepared
    planner.attachPartitionSizes plan
  if planner.isEnabled .iterativeExtension then plan.attachIteration
  if planner.isEnabled .parameterDetection then plan.attachParameters
  if planner.isEnabled .graphStatistics then plan.attachGraphStatistics
  if planner.isEnabled .planStatistics then plan.attachPlanStatistics

end Planner

end StagePlanner
