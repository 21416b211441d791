import StagePlanner.Graph.Edit
import StagePlanner.Plan.Equivalence

/-!
# Unification of ports

Equivalent outputs of a stage are merged when the same ports feed them or when
they feed the same inputs, equivalent inputs when the same outputs feed them. A
checkpoint that only forwards a checkpoint is dissolved into the outputs that feed
it. Every step makes the plan lighter, so the steps come to an end.
-/

namespace StagePlanner

/-- The graph that an edit leaves. -/
def Graph.edited (graph : Graph) (edit : Edit Unit) : Except Fault Graph :=
  match edit.apply graph with
  | (.ok (), changed) => .ok changed
  | (.error fault, _) => .error fault

namespace Stage

/-- The ports that feed an output inside its stage. -/
def feeders (stage : Stage) (output : StagePort) : List PortId :=
  match stage.graph.inputAt output.marker 0 with
  | .ok input => stage.graph.opposites input
  | .error _ => []

/-- Lets whatever feeds one marker also feed another one. -/
def shareProducers (source target : OperatorId) : Edit Unit := do
  let targetInput ← Edit.look fun graph => graph.inputAt target 0
  let sourceInput ← Edit.look fun graph => graph.inputAt source 0
  ((← get).opposites sourceInput).forM fun producer => Edit.connect producer targetInput

/-- Lets a marker also feed whatever another one feeds. -/
def shareConsumers (source target : OperatorId) : Edit Unit := do
  let targetOutput ← Edit.look fun graph => graph.outputAt target 0
  let sourceOutput ← Edit.look fun graph => graph.outputAt source 0
  ((← get).opposites sourceOutput).forM fun consumer => Edit.connect targetOutput consumer

/-- Merges an output into another one, with its producers and origins. -/
def mergeOutputs (stage : Stage) (kept absorbed : StagePort) : Except Fault Stage := do
  let graph ← stage.graph.edited (shareProducers absorbed.marker kept.marker)
  ({ stage with graph }.widenOutput kept.id absorbed.origins).removeOutput absorbed.id

/-- Merges an input into another one, with its consumers and origins. -/
def mergeInputs (stage : Stage) (kept absorbed : StagePort) : Except Fault Stage := do
  let graph ← stage.graph.edited (shareConsumers absorbed.marker kept.marker)
  ({ stage with graph }.widenInput kept.id absorbed.origins).removeInput absorbed.id

end Stage

namespace Plan

/-- Repeats a step for a number of times, or until it no longer makes the plan lighter. -/
def settleFor (step : Plan → Except Fault Plan) : Nat → Plan → Except Fault Plan
  | 0, plan => .ok plan
  | more + 1, plan => do
    let next ← step plan
    if next.weight < plan.weight then settleFor step more next else return next

/-- Repeats a step until it no longer makes the plan lighter. -/
def settle (step : Plan → Except Fault Plan) (plan : Plan) : Except Fault Plan :=
  settleFor step plan.weight plan

/-- The first pair of items of a list, the earlier one first, that a test accepts. -/
def firstPair? {α : Type} (test : α → α → Bool) : List α → Option (α × α)
  | [] => none
  | first :: rest =>
    match rest.find? (test first) with
    | some second => some (first, second)
    | none => firstPair? test rest

/-- The first two outputs of a stage that are equivalent and pass a test. -/
def outputPair? (plan : Plan) (equivalence : Equivalence)
    (test : Stage → StagePort → StagePort → Bool) : Option (Stage × StagePort × StagePort) :=
  plan.stages.findSome? fun stage =>
    (firstPair? (fun left right =>
      equivalence.key stage left.marker = equivalence.key stage right.marker && test stage left right)
      stage.outputs).map fun pair => (stage, pair)

/-- Merges the first two outputs that are equivalent and pass a test. -/
def mergeOutputPair (equivalence : Equivalence) (test : Plan → Stage → StagePort → StagePort → Bool)
    (plan : Plan) : Except Fault Plan :=
  match plan.outputPair? equivalence (test plan) with
  | none => .ok plan
  | some (stage, kept, absorbed) => (stage.mergeOutputs kept absorbed).map plan.replace

/-- Whether the same ports feed two outputs. -/
def sameFeeders (_ : Plan) (stage : Stage) (left right : StagePort) : Bool :=
  stage.feeders left = stage.feeders right

/-- Whether two outputs feed the same inputs, of which there are some. -/
def sameConsumers (plan : Plan) (_ : Stage) (left right : StagePort) : Bool :=
  let consumers := OrderedSet.ofList (plan.inputsFrom left.origins)
  !consumers.isEmpty && consumers = OrderedSet.ofList (plan.inputsFrom right.origins)

/-- Merges equivalent outputs that the same ports feed. -/
def unifyOutputs (equivalence : Equivalence) (plan : Plan) : Except Fault Plan :=
  plan.settle (mergeOutputPair equivalence sameFeeders)

/-- Merges equivalent outputs that feed the same inputs, so that their union is formed before the
exchange. -/
def pushUnions (equivalence : Equivalence) (plan : Plan) : Except Fault Plan :=
  plan.settle (mergeOutputPair equivalence sameConsumers)

/-- Whether the same outputs feed two inputs; some have to. -/
def sameProducers (plan : Plan) (left right : StagePort) : Bool :=
  let producers := OrderedSet.ofList (plan.outputsFrom left.origins)
  !producers.isEmpty && producers = OrderedSet.ofList (plan.outputsFrom right.origins)

/-- The first two inputs of a stage that are equivalent and that the same outputs feed. -/
def inputPair? (plan : Plan) (equivalence : Equivalence) : Option (Stage × StagePort × StagePort) :=
  plan.stages.findSome? fun stage =>
    (firstPair? (fun left right =>
      equivalence.key stage left.marker = equivalence.key stage right.marker &&
        plan.sameProducers left right)
      stage.inputs).map fun pair => (stage, pair)

/-- Merges the first two inputs that are equivalent and that the same outputs feed. -/
def mergeInputPair (equivalence : Equivalence) (plan : Plan) : Except Fault Plan :=
  match plan.inputPair? equivalence with
  | none => .ok plan
  | some (stage, kept, absorbed) => (stage.mergeInputs kept absorbed).map plan.replace

/-- Merges equivalent inputs that the same outputs feed. -/
def unifyInputs (equivalence : Equivalence) (plan : Plan) : Except Fault Plan :=
  plan.settle (mergeInputPair equivalence)

/-- The input that a checkpoint output merely forwards, if it is a checkpoint as well. -/
def forwardedInput? (stage : Stage) (output : StagePort) : Option StagePort :=
  if stage.marker? output ≠ some .checkpoint then none
  else match (stage.graph.predecessors output.marker).toList with
    | [predecessor] =>
      (stage.inputAt? predecessor).filter fun input => stage.marker? input = some .checkpoint
    | _ => none

/-- The first checkpoint output that forwards a checkpoint, with the outputs that feed that one. -/
def forwarded? (plan : Plan) : Option (Stage × StagePort × List PortAddress) :=
  plan.stages.findSome? fun stage =>
    stage.outputs.findSome? fun output =>
      match forwardedInput? stage output with
      | none => none
      | some input =>
        let producers := plan.outputsFrom input.origins
        if producers.isEmpty then none else some (stage, output, producers)

/-- Lets an output stand for further origins. -/
def widenOutput (plan : Plan) (origins : OrderedSet OperatorId) (address : PortAddress) : Plan :=
  match plan.stage? address.stage with
  | some stage => plan.replace (stage.widenOutput address.port origins)
  | none => plan

/-- Dissolves the first checkpoint output that forwards a checkpoint: the outputs behind it take
over its origins. -/
def dissolveForwarded (plan : Plan) : Except Fault Plan :=
  match plan.forwarded? with
  | none => .ok plan
  | some (found, output, producers) => do
    let widened :=
      producers.foldl (fun plan producer => plan.widenOutput output.origins producer) plan
    let stage ← widened.stage found.id
    let stage ← stage.removeOutput output.id
    return widened.replace stage

/-- Dissolves all checkpoint outputs that forward a checkpoint. -/
def dissolveCheckpoints (plan : Plan) : Except Fault Plan := plan.settle dissolveForwarded

end Plan

end StagePlanner
