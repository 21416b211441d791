import StagePlanner.Plan.Cutting
import StagePlanner.Plan.Pruning
import StagePlanner.Plan.Unification

/-!
# Assembly of plans

Groups of stages are merged into one stage each, then ports are unified and what
is no longer needed is dropped, over and over until the plan no longer changes.
-/

namespace StagePlanner

/-- The passes that assembly runs. -/
structure AssemblyPasses where
  /-- Drops outputs that nobody reads. -/
  unreadOutputs : Bool := false
  /-- Merges equivalent ports with the same opposites. -/
  redundantPorts : Bool := false
  /-- Dissolves checkpoints that only forward checkpoints. -/
  checkpoints : Bool := false
  /-- Forms unions before the exchange. -/
  unions : Bool := false
  /-- Puts the stages into the order of their dependencies. -/
  sorting : Bool := false
  deriving DecidableEq, Repr

/-- Every pass. -/
def AssemblyPasses.all : AssemblyPasses where
  unreadOutputs := true
  redundantPorts := true
  checkpoints := true
  unions := true
  sorting := true

namespace Plan

/-- What a stage contributes to a merged one. -/
def contribution (stage : Stage) : StageCut :=
  let inputs := OrderedSet.unions (stage.inputs.map StagePort.origins)
  let outputs := OrderedSet.unions (stage.outputs.map StagePort.origins)
  { members := (stage.sources.union inputs).union outputs
    producers := OrderedSet.ofList (stage.outputs.flatMap fun output =>
      (stage.graph.predecessors output.marker).toList.filterMap stage.source?)
    inputs, outputs }

/-- The stage that some stages of a plan become. -/
def mergedCut (primitive : Plan) (group : List StageId) : Except Fault StageCut := do
  let stages ← group.mapM primitive.stage
  let parts := stages.map contribution
  return {
    members := OrderedSet.unions (parts.map StageCut.members)
    producers := OrderedSet.unions (parts.map StageCut.producers)
    inputs := OrderedSet.unions (parts.map StageCut.inputs)
    outputs := OrderedSet.unions (parts.map StageCut.outputs) }

/-- Keeps the first occurrence of every stage and drops groups that have nothing left. -/
def firstOccurrences (covered : List StageId) : List (List StageId) → List (List StageId)
  | [] => []
  | group :: rest =>
    let fresh := group.foldl (fun fresh id =>
      if id ∈ covered || id ∈ fresh then fresh else fresh ++ [id]) []
    let others := firstOccurrences (covered ++ fresh) rest
    if fresh.isEmpty then others else fresh :: others

/-- Disjoint groups that cover all stages of a plan: the given ones, then one for every other
stage. -/
def coveringGroups (primitive : Plan) (groups : List (List StageId)) : List (List StageId) :=
  firstOccurrences [] (groups ++ primitive.stageIds.map fun id => [id])

/-- Merges groups of stages of a plan that was cut from a graph. -/
def merged (primitive : Plan) (graph : Graph) (groups : List (List StageId)) : Except Fault Plan :=
  (primitive.coveringGroups groups).foldlM (fun plan group => do
    let cut ← primitive.mergedCut group
    plan.addStage graph cut) {}

/-- Runs a pass if it is switched on. -/
def runIf (enabled : Bool) (pass : Plan → Except Fault Plan) (plan : Plan) : Except Fault Plan :=
  if enabled then pass plan else .ok plan

/-- Runs every pass once. -/
def assemblyRound (passes : AssemblyPasses) (equivalence : Equivalence)
    (plan : Plan) : Except Fault Plan := do
  let plan ← plan.runIf passes.redundantPorts (unifyOutputs equivalence)
  let plan ← plan.runIf passes.redundantPorts (unifyInputs equivalence)
  let plan ← plan.runIf passes.unions (pushUnions equivalence)
  let plan ← plan.runIf passes.checkpoints dissolveCheckpoints
  let plan ← plan.runIf passes.unreadOutputs dropUnread
  plan.prune

/-- Refuses a plan with circuits and puts the stages into their order if that is wanted. -/
def finished (passes : AssemblyPasses) (plan : Plan) : Except Fault Plan :=
  match plan.dependencies.circuits with
  | [] => if passes.sorting then do plan.reorder (← plan.order) else .ok plan
  | circuits => .error (.invariant (.cyclicPlan (circuits.map OrderedSet.toList)))

/-- Assembles a plan from the stages that were cut from a graph. -/
def assemble (primitive : Plan) (graph : Graph) (groups : List (List StageId))
    (passes : AssemblyPasses) (equivalence : Equivalence) : Except Fault Plan := do
  let merged ← primitive.merged graph groups
  let settled ← merged.settle (assemblyRound passes equivalence)
  finished passes { settled with stages := settled.stages.map Stage.pruneProvenance }

end Plan

end StagePlanner
