import StagePlanner.Annotation
import StagePlanner.Estimate
import StagePlanner.Graph.Edit
import StagePlanner.Partition

/-!
# Sizes of exchanges

The volume that is expected to cross a port, and the size class of shuffles. Ports
that have to agree on their partitions share a class: the shuffled inputs of one
stage, and an output together with the inputs that it feeds.
-/

namespace StagePlanner

variable {ν : Type}

/-- The volume that crosses a port: the sum over its origins in the prepared graph. -/
def StagePort.volume? [Volume ν] (port : StagePort) (prepared : Graph)
    (estimates : Estimates ν) : Option ν :=
  Volume.sum? (port.origins.toList.map fun origin =>
    match prepared.outputAt origin 0 with
    | .ok output => estimates.output? output
    | .error _ => none)

/-- The volumes of all ports of a plan. -/
def Plan.volumes [Volume ν] (plan : Plan) (prepared : Graph)
    (estimates : Estimates ν) : List (StagePortId × Option ν) :=
  (plan.stages.flatMap Stage.ports).map fun port => (port.id, port.volume? prepared estimates)

namespace Notes

/-- Whether an input is shuffled. -/
def isShuffledInput (notes : Notes ν) (port : StagePortId) : Bool :=
  (notes.port port).inputRole.any fun role => role.distribution = .partitioned

/-- Whether an output is shuffled. -/
def isShuffledOutput (notes : Notes ν) (port : StagePortId) : Bool :=
  (notes.port port).outputRole.any fun role =>
    role.distribution = .partitioned || role.distribution = .aggregated

/-- The shuffled inputs of a stage. -/
def shuffledInputs (notes : Notes ν) (stage : Stage) : List StagePortId :=
  (stage.inputs.map StagePort.id).filter notes.isShuffledInput

/-- The shuffled outputs of a stage. -/
def shuffledOutputs (notes : Notes ν) (stage : Stage) : List StagePortId :=
  (stage.outputs.map StagePort.id).filter notes.isShuffledOutput

/-- Adds the shuffled inputs of a stage, which all belong together. -/
def joinInputs (notes : Notes ν) (groups : Partition StagePortId)
    (stage : Stage) : Partition StagePortId :=
  match notes.shuffledInputs stage with
  | [] => groups
  | first :: others =>
    others.foldl (fun groups other => (groups.add other).unite first other) (groups.add first)

/-- Adds a shuffled output, which belongs together with the shuffled inputs that it feeds. -/
def joinOutput (plan : Plan) (groups : Partition StagePortId)
    (output : PortAddress) : Partition StagePortId :=
  ((plan.consumers output).map PortAddress.port).foldl
    (fun groups input => if input ∈ groups.members then groups.unite output.port input else groups)
    (groups.add output.port)

/-- The ports that have to agree on their partitions. -/
def shuffleGroups (notes : Notes ν) (plan : Plan) : Partition StagePortId :=
  let inputs := plan.stages.foldl notes.joinInputs {}
  let outputs := plan.stages.flatMap fun stage =>
    (notes.shuffledOutputs stage).map fun port => ⟨stage.id, port⟩
  outputs.foldl (joinOutput plan) inputs

/-- The class that the configuration fixes for a stage, by its label or by its name. -/
def explicitSize? (notes : Notes ν) (config : Config ν) (stage : StageId) : Option SizeClass :=
  let noted := notes.stage stage
  ((noted.role.map StageRole.label).toList ++ noted.name.toList).findSome? fun key =>
    config.explicitSizes.lookup key

/-- The largest of some volumes. -/
def largestVolume? [Volume ν] (volumes : List ν) : Option ν :=
  volumes.foldl (fun best volume => some (match best with
    | none => volume
    | some other => Volume.greater other volume)) none

/-- The class that some ports share: the largest that the configuration fixes, else that of the
largest known volume, else the middle one. -/
def sharedSize [Volume ν] (notes : Notes ν) (config : Config ν) (plan : Plan)
    (ports : OrderedSet StagePortId) : SizeClass :=
  let stages := plan.stages.filter fun stage => stage.ports.any fun port => port.id ∈ ports
  match SizeClass.largest? (stages.filterMap fun stage => notes.explicitSize? config stage.id) with
  | some size => size
  | none =>
    match largestVolume? (ports.toList.filterMap fun port => (notes.port port).size.join) with
    | some volume => config.limits.classify volume
    | none => .regular

/-- The class of every shuffled port. -/
def partitionSizes [Volume ν] (notes : Notes ν) (config : Config ν)
    (plan : Plan) : List (StagePortId × SizeClass) :=
  (notes.shuffleGroups plan).classes.flatMap fun ports =>
    let size := notes.sharedSize config plan ports
    ports.toList.map fun port => (port, size)

end Notes

end StagePlanner
