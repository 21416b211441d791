import StagePlanner.Proofs.Assembly.Pruning
import StagePlanner.Proofs.Assembly.Sharing

/-!
# Steps of assembly

Whatever the passes of assembly do to a plan consists of four kinds of steps: dropping what is not
needed, merging two outputs of a stage, merging two inputs of a stage, and dissolving an output
that forwards an input. `Plan.Step` says what each of them does and on which condition, so what
holds of all assembled plans is proved step by step, without looking at the passes again.
-/

namespace StagePlanner

open Relation

/-- Two ports stand for a common origin. -/
def StagePort.Meets (left right : StagePort) : Prop :=
  ∃ origin, origin ∈ left.origins ∧ origin ∈ right.origins

theorem StagePort.Meets.symm {left right : StagePort} (meets : left.Meets right) :
    right.Meets left := by
  obtain ⟨origin, inLeft, inRight⟩ := meets
  exact ⟨origin, inRight, inLeft⟩

theorem StagePort.widened_meets {port other : StagePort} {origins : OrderedSet OperatorId} :
    (port.widened origins).Meets other ↔
      port.Meets other ∨ ∃ origin, origin ∈ origins ∧ origin ∈ other.origins := by
  simp only [Meets, widened, OrderedSet.mem_union, or_and_right, exists_or]

/-- What becomes of an output when the outputs that feed an input take over from an output that
forwards it. -/
def StagePort.takingOver (port output input : StagePort) : StagePort :=
  if port.origins.meets input.origins then port.widened output.origins else port

theorem StagePort.mem_origins_takingOver {port output input : StagePort} {origin : OperatorId} :
    origin ∈ (port.takingOver output input).origins ↔
      origin ∈ port.origins ∨ port.Meets input ∧ origin ∈ output.origins := by
  rw [takingOver]
  split
  · next meets => simp [widened, Meets, OrderedSet.meets_iff.1 meets]
  · next apart =>
    have never : ¬ port.Meets input := fun meets => apart (OrderedSet.meets_iff.2 meets)
    simp [never]

theorem StagePort.place_takingOver (port output input : StagePort) :
    (port.takingOver output input).place = port.place := by
  rw [takingOver]
  split <;> rfl

namespace Stage

/-- The same ports feed two outputs. -/
def SameFeeders (stage : Stage) (left right : StagePort) : Prop :=
  ∀ source, stage.graph.Wired source ⟨left.marker, 0⟩ ↔ stage.graph.Wired source ⟨right.marker, 0⟩

/-- An input and nothing else feeds an output. -/
def Forwards (stage : Stage) (input output : StagePort) : Prop :=
  ∀ source, stage.graph.Wired source ⟨output.marker, 0⟩ ↔ source = ⟨input.marker, 0⟩

/-- What becomes of a stage when an output of a stage is dissolved that forwards an input. -/
structure TakesOver (result stage found : Stage) (output input : StagePort) : Prop where
  id : result.id = stage.id
  provenance : result.provenance = stage.provenance
  sound : result.Sound
  graph : result.graph.Restricts stage.graph fun id => stage = found → id ≠ output.marker
  inputs : ∀ port, port ∈ result.inputs ↔ port ∈ stage.inputs
  outputs : ∀ port, port ∈ result.outputs ↔ ∃ former ∈ stage.outputs,
    (stage = found → former ≠ output) ∧ port = former.takingOver output input

end Stage

namespace Plan

variable {plan result : Plan}

/-- Two outputs feed the same inputs. -/
def SameConsumers (plan : Plan) (left right : StagePort) : Prop :=
  ∀ stage ∈ plan.stages, ∀ input ∈ stage.inputs, left.Meets input ↔ right.Meets input

/-- The same outputs feed two inputs. -/
def SameProducers (plan : Plan) (left right : StagePort) : Prop :=
  ∀ stage ∈ plan.stages, ∀ output ∈ stage.outputs, output.Meets left ↔ output.Meets right

/-- An input that reads what became of two outputs with the same consumers reads both of them. -/
theorem SameConsumers.meets_both {left right : StagePort} (same : plan.SameConsumers left right)
    {stage : Stage} (isStage : stage ∈ plan.stages) {input : StagePort} (isInput : input ∈ stage.inputs)
    (meets : (left.widened right.origins).Meets input) : left.Meets input ∧ right.Meets input := by
  have alike := same stage isStage input isInput
  rcases StagePort.widened_meets.1 meets with reads | reads
  · exact ⟨reads, alike.1 reads⟩
  · exact ⟨alike.2 reads, reads⟩

/-- An output that feeds what became of two inputs with the same producers feeds both of them. -/
theorem SameProducers.meets_both {left right : StagePort} (same : plan.SameProducers left right)
    {stage : Stage} (isStage : stage ∈ plan.stages) {output : StagePort}
    (isOutput : output ∈ stage.outputs) (meets : output.Meets (left.widened right.origins)) :
    output.Meets left ∧ output.Meets right := by
  have alike := same stage isStage output isOutput
  rcases StagePort.widened_meets.1 meets.symm with feeds | ⟨origin, inRight, inOutput⟩
  · exact ⟨feeds.symm, alike.1 feeds.symm⟩
  · have feeds : output.Meets right := ⟨origin, inOutput, inRight⟩
    exact ⟨alike.2 feeds, feeds⟩

/-- One stage of a plan becomes another one and the others stay. -/
def ChangesOnly (result plan : Plan) (stage : Stage) (becomes : Stage → Prop) : Prop :=
  List.Forall₂ (fun old new => old = stage ∧ becomes new ∨ old ≠ stage ∧ new = old) plan.stages
    result.stages

/-- A step of assembly. -/
inductive Step (equivalence : Equivalence) (plan : Plan) : Plan → Prop
  | trim {result : Plan} (trims : result.Trims plan plan.Needs) : Step equivalence plan result
  | mergeOutputs {result : Plan} {stage : Stage} {kept absorbed : StagePort}
      (isStage : stage ∈ plan.stages) (isKept : kept ∈ stage.outputs)
      (isAbsorbed : absorbed ∈ stage.outputs) (differ : kept ≠ absorbed)
      (equivalent : equivalence.key stage kept.marker = equivalence.key stage absorbed.marker)
      (same : stage.SameFeeders kept absorbed ∨ plan.SameConsumers kept absorbed)
      (changes : result.ChangesOnly plan stage fun merged =>
        merged.Sound ∧ merged.MergesOutputs stage kept absorbed) : Step equivalence plan result
  | mergeInputs {result : Plan} {stage : Stage} {kept absorbed : StagePort}
      (isStage : stage ∈ plan.stages) (isKept : kept ∈ stage.inputs)
      (isAbsorbed : absorbed ∈ stage.inputs) (differ : kept ≠ absorbed)
      (equivalent : equivalence.key stage kept.marker = equivalence.key stage absorbed.marker)
      (same : plan.SameProducers kept absorbed)
      (changes : result.ChangesOnly plan stage fun merged =>
        merged.Sound ∧ merged.MergesInputs stage kept absorbed) : Step equivalence plan result
  | dissolve {result : Plan} {found : Stage} {output input : StagePort}
      (isFound : found ∈ plan.stages) (isOutput : output ∈ found.outputs)
      (isInput : input ∈ found.inputs)
      (areCheckpoints : found.marker? output = some .checkpoint ∧
        found.marker? input = some .checkpoint)
      (forwards : found.Forwards input output)
      (changes : List.Forall₂ (fun old new => new.TakesOver old found output input) plan.stages
        result.stages) : Step equivalence plan result

/-! ### Stages keep their identifiers -/

theorem ChangesOnly.stageIds {stage : Stage} {becomes : Stage → Prop}
    (changes : result.ChangesOnly plan stage becomes)
    (sameId : ∀ new, becomes new → new.id = stage.id) : result.stageIds = plan.stageIds := by
  refine stageIds_of_paired (changes.imp fun old new => ?_)
  rintro (⟨rfl, became⟩ | ⟨-, rfl⟩)
  · exact sameId new became
  · rfl

/-- Putting a changed stage in the place of the one with its identifier changes this one only. -/
theorem changesOnly_replace (distinct : plan.stageIds.Nodup) {stage new : Stage}
    {becomes : Stage → Prop} (isStage : stage ∈ plan.stages) (same : new.id = stage.id)
    (became : becomes new) : (plan.replace new).ChangesOnly plan stage becomes := by
  rw [ChangesOnly, replace, List.forall₂_map_right_iff, List.forall₂_same]
  intro old isOld
  by_cases equal : old = stage
  · exact .inl ⟨equal, by rwa [if_pos (equal ▸ same.symm)]⟩
  · refine .inr ⟨equal, if_neg fun sameId => equal ?_⟩
    exact stage_unique distinct isOld isStage (sameId.trans same)

theorem ChangesOnly.sound {stage : Stage} {becomes : Stage → Prop}
    (changes : result.ChangesOnly plan stage becomes) (sound : plan.Sound)
    (sameId : ∀ new, becomes new → new.id = stage.id)
    (stays : ∀ new, becomes new → new.Sound) : result.Sound where
  distinct := changes.stageIds sameId ▸ sound.distinct
  stages new isNew := by
    obtain ⟨old, isOld, ⟨-, became⟩ | ⟨-, rfl⟩⟩ := exists_partner changes isNew
    · exact stays new became
    · exact sound.stages new isOld

theorem Trims.sound {needed : Stage → StagePort → Prop} (trims : result.Trims plan needed)
    (sound : plan.Sound) : result.Sound where
  distinct := sound.distinct.sublist trims.stageIds
  stages stage isStage := by
    obtain ⟨old, isOld, stays, restricts, -⟩ := trims.stages stage isStage
    exact restricts.sound (sound.stages old isOld)

/-- Steps keep plans sound. -/
theorem Step.sound {equivalence : Equivalence} (step : Step equivalence plan result)
    (sound : plan.Sound) : result.Sound := by
  cases step with
  | trim trims => exact trims.sound sound
  | mergeOutputs _ _ _ _ _ _ changes =>
    exact changes.sound sound (fun _ became => became.2.id) fun _ became => became.1
  | mergeInputs _ _ _ _ _ _ changes =>
    exact changes.sound sound (fun _ became => became.2.id) fun _ became => became.1
  | dissolve _ _ _ _ _ changes =>
    refine ⟨stageIds_of_paired (changes.imp fun _ _ takesOver => takesOver.id) ▸ sound.distinct, ?_⟩
    intro new isNew
    obtain ⟨old, -, takesOver⟩ := exists_partner changes isNew
    exact takesOver.sound

end Plan

end StagePlanner
