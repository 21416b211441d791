import StagePlanner.Config
import StagePlanner.Plan.Statistics
import StagePlanner.Stage.Role

/-!
# Annotations

What is known about a plan, its stages and its ports beyond their structure. Every
note is absent until it is attached.
-/

namespace StagePlanner

/-- Notes about a stage port. -/
structure PortNotes (ν : Type) where
  name : Option String := none
  inputRole : Option InputRole := none
  outputRole : Option OutputRole := none
  broadcast : Option BroadcastTable := none
  /-- The expected volume; it may have been looked for and be unknown. -/
  size : Option (Option ν) := none
  partitionSize : Option SizeClass := none
  iteration : Option Iteration := none

/-- Notes about a stage. -/
structure StageNotes where
  name : Option String := none
  role : Option StageRole := none
  iteration : Option Iteration := none
  statistics : Option GraphStatistics := none
  deriving DecidableEq, Repr

/-- Notes about a whole plan. -/
structure PlanNotes where
  iteration : Option Iteration := none
  parameters : Option (OrderedSet String) := none
  graphStatistics : Option GraphStatistics := none
  planStatistics : Option PlanStatistics := none
  deriving DecidableEq, Repr

/-- All notes about a plan and its parts. -/
structure Notes (ν : Type) where
  plan : PlanNotes := {}
  stages : List (StageId × StageNotes) := []
  ports : List (StagePortId × PortNotes ν) := []

/-- The number of notes about a port. -/
def PortNotes.count {ν : Type} (notes : PortNotes ν) : Nat :=
  let attached := [notes.name.isSome, notes.inputRole.isSome, notes.outputRole.isSome,
    notes.broadcast.isSome, notes.size.isSome, notes.partitionSize.isSome, notes.iteration.isSome]
  attached.count true

namespace Notes

variable {ν : Type}

/-- The notes about a stage. -/
def stage (notes : Notes ν) (id : StageId) : StageNotes := (notes.stages.lookup id).getD {}

/-- The notes about a port. -/
def port (notes : Notes ν) (id : StagePortId) : PortNotes ν := (notes.ports.lookup id).getD {}

/-- Changes the notes about a stage. -/
def editStage (notes : Notes ν) (id : StageId) (change : StageNotes → StageNotes) : Notes ν :=
  let others := notes.stages.filter fun entry => entry.1 ≠ id
  { notes with stages := (id, change (notes.stage id)) :: others }

/-- Changes the notes about a port. -/
def editPort (notes : Notes ν) (id : StagePortId) (change : PortNotes ν → PortNotes ν) : Notes ν :=
  let others := notes.ports.filter fun entry => entry.1 ≠ id
  { notes with ports := (id, change (notes.port id)) :: others }

/-- Attaches values to stages one after the other. -/
def attachStages {β : Type} (attach : β → StageNotes → StageNotes) (entries : List (StageId × β))
    (notes : Notes ν) : Notes ν :=
  entries.foldl (fun notes (id, value) => notes.editStage id (attach value)) notes

/-- Attaches values to ports one after the other. -/
def attachPorts {β : Type} (attach : β → PortNotes ν → PortNotes ν)
    (entries : List (StagePortId × β)) (notes : Notes ν) : Notes ν :=
  entries.foldl (fun notes (id, value) => notes.editPort id (attach value)) notes

end Notes

/-- A plan with its notes. -/
structure AnnotatedPlan (ν : Type) where
  plan : Plan := {}
  notes : Notes ν := {}

end StagePlanner
