import StagePlanner.Proofs.Flow.Preservation
import StagePlanner.Proofs.Multiplicity.Dissolving

/-!
# No step of assembly delivers more

Each kind of step of assembly leaves an operator at most as many ways upstream to the copies of an
output as it had (`Plan.DeliversNoMore`). What is trimmed takes its ways with it. Ways through
merged inputs, and through merged outputs with the same feeders, are lifted from their start; ways
through merged outputs with the same consumers only from their end, because it depends on the
feeder through which output they went. Where an output is dissolved, ways get shorter.
-/

namespace StagePlanner

open Relation

theorem Stage.Restricts.derives {new old : Stage} {stays : OperatorId → Prop}
    (restricts : new.Restricts old stays) : new.Derives old :=
  .of_provenance_eq restricts.id
    (fun operator member => ((restricts.graph.operators operator).1 member).1) restricts.provenance

theorem Stage.MergesInputs.derives {result stage : Stage} {kept absorbed : StagePort}
    (merges : result.MergesInputs stage kept absorbed) : result.Derives stage :=
  .of_provenance_eq merges.id (fun operator member => ((merges.operators operator).1 member).1)
    merges.provenance

theorem Stage.MergesOutputs.derives {result stage : Stage} {kept absorbed : StagePort}
    (merges : result.MergesOutputs stage kept absorbed) : result.Derives stage :=
  .of_provenance_eq merges.id (fun operator member => ((merges.operators operator).1 member).1)
    merges.provenance

namespace Plan

/-- The stages of the first plan are what assembly made of stages of the second one, and no operator
that is no marker has more ways upstream from one of its inputs to the copies of an output. -/
def DeliversNoMore (result plan : Plan) (graph : Graph) : Prop :=
  ∀ new ∈ result.stages, ∃ old ∈ plan.stages, new.Derives old ∧
    ∀ operator ∈ new.graph.operators, operator.isMarker = false →
      ∀ source, graph.isMarker source.operator = false → ∀ index,
        Nat.card (result.Way source ⟨new.id, .input, ⟨operator.id, index⟩⟩) ≤
          Nat.card (plan.Way source ⟨new.id, .input, ⟨operator.id, index⟩⟩)

variable {plan result : Plan} {graph : Graph}

theorem DeliversNoMore.refl (plan : Plan) : plan.DeliversNoMore plan graph := fun new isNew =>
  ⟨new, isNew, .refl new, fun _ _ _ _ _ _ => Nat.le_refl _⟩

theorem DeliversNoMore.trans {middle : Plan} (later : result.DeliversNoMore middle graph)
    (earlier : middle.DeliversNoMore plan graph) : result.DeliversNoMore plan graph := by
  intro new isNew
  obtain ⟨between, isBetween, after, fewer⟩ := later new isNew
  obtain ⟨old, isOld, before, evenFewer⟩ := earlier between isBetween
  refine ⟨old, isOld, before.trans after, fun operator member noMarker source isSource index => ?_⟩
  refine (fewer operator member noMarker source isSource index).trans ?_
  rw [after.id]
  exact evenFewer operator (after.operators operator member) noMarker source isSource index

/-- A plan whose steps upstream are those of another one delivers no more. -/
theorem DeliversNoMore.of_upstream (sound : plan.Sound)
    (circuitless : Circuitless plan.dependencies.Depends)
    (derives : ∀ new ∈ result.stages, ∃ old ∈ plan.stages, new.Derives old)
    (upstream : ∀ source target, result.Upstream source target → plan.Upstream source target) :
    result.DeliversNoMore plan graph := by
  intro new isNew
  obtain ⟨old, isOld, derived⟩ := derives new isNew
  refine ⟨old, isOld, derived, fun operator _ _ source _ index => ?_⟩
  exact Route.card_le_of_forward (sound.finitary_upstream circuitless) id (fun _ => True)
    (fun spot _ next taken => ⟨next, rfl, trivial, upstream spot next taken⟩)
    (fun _ _ isCopy => isCopy.of_derives derives) _ trivial

/-! ### Trimming -/

/-- Trimming leaves no new way. -/
theorem Trims.upstream {needed : Stage → StagePort → Prop} (trims : result.Trims plan needed)
    (sound : plan.Sound) {source target : Spot} (step : result.Upstream source target) :
    plan.Upstream source target := by
  cases step with
  | wire isNew wired =>
    obtain ⟨old, isOld, stays, restricts, -⟩ := trims.stages _ isNew
    rw [restricts.id]
    exact .wire isOld ((restricts.graph.wired _ _).1 wired).1
  | marker isNew isMarker isPort =>
    obtain ⟨old, isOld, stays, restricts, -⟩ := trims.stages _ isNew
    have oldSound := sound.stages old isOld
    rw [restricts.id]
    exact .marker isOld (restricts.derives.isMarker (restricts.sound oldSound) oldSound isPort isMarker)
      (restricts.derives.hasPort isPort)
  | connection isNew isInput isProducer isOutput meets isPort =>
    obtain ⟨old, isOld, _, restricts, -⟩ := trims.stages _ isNew
    obtain ⟨producer, isOldProducer, _, producerRestricts, -⟩ := trims.stages _ isProducer
    rw [restricts.id, producerRestricts.id]
    exact .connection isOld (restricts.inputs.subset isInput) isOldProducer
      (producerRestricts.outputs.subset isOutput) meets (producerRestricts.derives.hasPort isPort)

theorem Trims.deliversNoMore {needed : Stage → StagePort → Prop} (trims : result.Trims plan needed)
    (sound : plan.Sound) (circuitless : Circuitless plan.dependencies.Depends) :
    result.DeliversNoMore plan graph := by
  refine .of_upstream sound circuitless (fun new isNew => ?_) fun _ _ => trims.upstream sound
  obtain ⟨old, isOld, _, restricts, -⟩ := trims.stages new isNew
  exact ⟨old, isOld, restricts.derives⟩

/-! ### Merging inputs -/

section MergedInputs

variable {stage : Stage} {kept absorbed : StagePort} (sound : plan.Sound)
  (resultSound : result.Sound) (isStage : stage ∈ plan.stages) (isKept : kept ∈ stage.inputs)
  (isAbsorbed : absorbed ∈ stage.inputs)
  (changes : result.ChangesOnly plan stage fun merged =>
    merged.Sound ∧ merged.MergesInputs stage kept absorbed)

include sound resultSound isStage isKept isAbsorbed changes

theorem folds_of_mergeInputs : result.Folds plan stage kept absorbed where
  sound := sound
  resultSound := resultSound
  isStage := isStage
  isKept := List.mem_append_left _ isKept
  isAbsorbed := List.mem_append_left _ isAbsorbed
  stages new isNew := by
    obtain ⟨old, isOld, ⟨rfl, -, merges⟩ | ⟨differ, rfl⟩⟩ := exists_partner changes isNew
    · exact ⟨old, isOld, merges.derives, fun _ operator member =>
        ((merges.operators operator).1 member).2⟩
    · exact ⟨new, isOld, .refl new, fun same => absurd same differ⟩

omit sound resultSound isStage isKept isAbsorbed in
/-- Merging inputs leaves the outputs. -/
theorem exists_output_of_mergeInputs {new : Stage} (isNew : new ∈ result.stages)
    {output : StagePort} (isOutput : output ∈ new.outputs) :
    ∃ old ∈ plan.stages, new.Derives old ∧ output ∈ old.outputs := by
  obtain ⟨old, isOld, ⟨rfl, -, merges⟩ | ⟨-, rfl⟩⟩ := exists_partner changes isNew
  · exact ⟨old, isOld, merges.derives, (merges.outputs output).1 isOutput⟩
  · exact ⟨new, isOld, .refl new, isOutput⟩

omit resultSound isAbsorbed in
/-- Merging inputs leaves the other inputs, and the one that was kept with the origins of both. -/
theorem exists_input_of_mergeInputs {new : Stage} (isNew : new ∈ result.stages)
    {input : StagePort} (isInput : input ∈ new.inputs) :
    (∃ old ∈ plan.stages, new.id = old.id ∧ input ∈ old.inputs ∧
      (new.id = stage.id → input.marker ≠ kept.marker)) ∨
    new.id = stage.id ∧ input = kept.widened absorbed.origins := by
  have stageSound := sound.stages stage isStage
  obtain ⟨old, isOld, ⟨rfl, -, merges⟩ | ⟨differ, rfl⟩⟩ := exists_partner changes isNew
  · rcases (merges.inputs input).1 isInput with ⟨wasInput, notKept, -⟩ | rfl
    · exact .inl ⟨old, isOld, merges.id, wasInput, fun _ same => notKept
        (stageSound.proper.port_unique_of_marker (List.mem_append_left _ wasInput)
          (List.mem_append_left _ isKept) same)⟩
    · exact .inr ⟨merges.id, rfl⟩
  · exact .inl ⟨new, isOld, rfl, isInput, fun here =>
      absurd here (stage_id_ne sound.distinct isOld isStage differ)⟩

/-- Steps upstream after inputs were merged are images of steps that start at given spots. -/
theorem exists_upstream_of_mergeInputs (same : plan.SameProducers kept absorbed) {spot next : Spot}
    (taken : result.Upstream (spot.folded stage.id kept.marker absorbed.marker) next) :
    ∃ onward, onward.folded stage.id kept.marker absorbed.marker = next ∧
      plan.Upstream spot onward := by
  have folds := folds_of_mergeInputs sound resultSound isStage isKept isAbsorbed changes
  have stageSound := sound.stages stage isStage
  generalize isAt : spot.folded stage.id kept.marker absorbed.marker = place at taken
  cases taken with
  | @wire new source target isNew wired =>
    obtain ⟨old, isOld, ⟨rfl, -, merges⟩ | ⟨differ, rfl⟩⟩ := exists_partner changes isNew
    · obtain ⟨stays, was⟩ := (merges.wired _ _).1 wired
      have notKept : target.operator ≠ kept.marker := fun atKept => by
        rcases was with direct | ⟨-, past⟩
        · exact stageSound.unfed kept isKept _ (atKept ▸ direct.feeds)
        · exact stageSound.unfed kept isKept _ (atKept ▸ past.feeds)
      obtain rfl := Spot.eq_of_folded_eq isAt fun _ => notKept
      rw [merges.id]
      rcases was with direct | ⟨rfl, past⟩
      · exact ⟨⟨old.id, .output, source⟩, Spot.folded_of_ne fun _ => stays, .wire isOld direct⟩
      · exact ⟨⟨old.id, .output, ⟨absorbed.marker, 0⟩⟩, Spot.folded_absorbed, .wire isOld past⟩
    · have away := stage_id_ne sound.distinct isOld isStage differ
      obtain rfl := Spot.eq_of_folded_eq isAt fun here => absurd here away
      exact ⟨_, Spot.folded_of_ne fun here => absurd here away, .wire isOld wired⟩
  | marker isNew isMarker isPort => exact folds.exists_marker_from isNew isMarker isPort isAt
  | @connection new producer input output index other isNew isInput isProducer isOutput meets isPort =>
    refine ⟨_, folds.folded_eq isProducer isPort.mem_operatorIds, ?_⟩
    obtain ⟨feeder, isFeeder, derives, wasOutput⟩ :=
      exists_output_of_mergeInputs changes isProducer isOutput
    have feeds : ∀ old ∈ plan.stages, ∀ port ∈ old.inputs, output.Meets port →
        plan.Upstream ⟨old.id, .input, ⟨port.marker, index⟩⟩
          ⟨feeder.id, .output, ⟨output.marker, other⟩⟩ := fun _ isOld _ isInput meets =>
      .connection isOld isInput isFeeder wasOutput meets (derives.hasPort isPort)
    rw [derives.id]
    rcases exists_input_of_mergeInputs sound isStage isKept changes isNew isInput with
      ⟨old, isOld, oldId, wasInput, notKept⟩ | ⟨here, rfl⟩
    · obtain rfl := Spot.eq_of_folded_eq isAt notKept
      rw [oldId]
      exact feeds old isOld input wasInput meets
    · -- What feeds the merged input feeds both of the two.
      have both := same.meets_both isFeeder wasOutput meets
      rcases Spot.eq_or_of_folded_eq isAt with rfl | ⟨-, -, rfl⟩
      · rw [here]
        exact feeds stage isStage kept isKept both.1
      · exact feeds stage isStage absorbed isAbsorbed both.2

end MergedInputs

/-! ### Merging outputs -/

section MergedOutputs

variable {stage : Stage} {kept absorbed : StagePort} (sound : plan.Sound)
  (resultSound : result.Sound) (isStage : stage ∈ plan.stages) (isKept : kept ∈ stage.outputs)
  (isAbsorbed : absorbed ∈ stage.outputs)
  (changes : result.ChangesOnly plan stage fun merged =>
    merged.Sound ∧ merged.MergesOutputs stage kept absorbed)

include sound resultSound isStage isKept isAbsorbed changes

theorem folds_of_mergeOutputs : result.Folds plan stage kept absorbed where
  sound := sound
  resultSound := resultSound
  isStage := isStage
  isKept := List.mem_append_right _ isKept
  isAbsorbed := List.mem_append_right _ isAbsorbed
  stages new isNew := by
    obtain ⟨old, isOld, ⟨rfl, -, merges⟩ | ⟨differ, rfl⟩⟩ := exists_partner changes isNew
    · exact ⟨old, isOld, merges.derives, fun _ operator member =>
        ((merges.operators operator).1 member).2⟩
    · exact ⟨new, isOld, .refl new, fun same => absurd same differ⟩

omit resultSound in
/-- Merging outputs leaves the inputs, which are at neither of them. -/
theorem exists_input_of_mergeOutputs {new : Stage} (isNew : new ∈ result.stages) {input : StagePort}
    (isInput : input ∈ new.inputs) : ∃ old ∈ plan.stages, new.id = old.id ∧ input ∈ old.inputs ∧
      (new.id = stage.id → input.marker ≠ kept.marker ∧ input.marker ≠ absorbed.marker) := by
  have stageSound := sound.stages stage isStage
  obtain ⟨old, isOld, ⟨rfl, -, merges⟩ | ⟨differ, rfl⟩⟩ := exists_partner changes isNew
  · have wasInput := (merges.inputs input).1 isInput
    exact ⟨old, isOld, merges.id, wasInput, fun _ =>
      ⟨stageSound.proper.input_ne_output wasInput isKept,
        stageSound.proper.input_ne_output wasInput isAbsorbed⟩⟩
  · exact ⟨new, isOld, rfl, isInput, fun here =>
      absurd here (stage_id_ne sound.distinct isOld isStage differ)⟩

omit resultSound in
/-- Merging outputs leaves the other outputs, and the one that was kept with the origins of both. -/
theorem exists_output_of_mergeOutputs {new : Stage} (isNew : new ∈ result.stages)
    {output : StagePort} (isOutput : output ∈ new.outputs) :
    (∃ old ∈ plan.stages, new.Derives old ∧ output ∈ old.outputs ∧
      (new.id = stage.id → output.marker ≠ kept.marker)) ∨
    new.Derives stage ∧ output = kept.widened absorbed.origins := by
  have stageSound := sound.stages stage isStage
  obtain ⟨old, isOld, ⟨rfl, -, merges⟩ | ⟨differ, rfl⟩⟩ := exists_partner changes isNew
  · rcases (merges.outputs output).1 isOutput with ⟨wasOutput, notKept, -⟩ | rfl
    · exact .inl ⟨old, isOld, merges.derives, wasOutput, fun _ same => notKept
        (stageSound.proper.port_unique_of_marker (List.mem_append_right _ wasOutput)
          (List.mem_append_right _ isKept) same)⟩
    · exact .inr ⟨merges.derives, rfl⟩
  · exact .inl ⟨new, isOld, .refl new, isOutput, fun here =>
      absurd here (stage_id_ne sound.distinct isOld isStage differ)⟩

/-- Steps upstream after outputs with the same feeders were merged are images of steps that start at
given spots. -/
theorem exists_upstream_of_sameFeeders (same : stage.SameFeeders kept absorbed) {spot next : Spot}
    (taken : result.Upstream (spot.folded stage.id kept.marker absorbed.marker) next) :
    ∃ onward, onward.folded stage.id kept.marker absorbed.marker = next ∧
      plan.Upstream spot onward := by
  have folds := folds_of_mergeOutputs sound resultSound isStage isKept isAbsorbed changes
  have stageSound := sound.stages stage isStage
  generalize isAt : spot.folded stage.id kept.marker absorbed.marker = place at taken
  cases taken with
  | @wire new source target isNew wired =>
    refine ⟨_, folds.folded_eq isNew wired.hasPort_source.mem_operatorIds, ?_⟩
    obtain ⟨old, isOld, ⟨rfl, -, merges⟩ | ⟨differ, rfl⟩⟩ := exists_partner changes isNew
    · rw [merges.id]
      obtain ⟨-, was⟩ := (merges.wired _ _).1 wired
      rcases Spot.eq_or_of_folded_eq isAt with rfl | ⟨-, atKept, rfl⟩
      · rw [merges.id]
        rcases was with direct | ⟨rfl, past⟩
        · exact .wire isOld direct
        · exact .wire isOld ((same source).2 past)
      · obtain ⟨operator, index⟩ := target
        obtain rfl : operator = kept.marker := atKept
        rcases was with direct | ⟨atStart, past⟩
        · obtain rfl := stageSound.wired_input_index (List.mem_append_right _ isKept) direct
          exact .wire isOld ((same source).1 direct)
        · cases atStart
          exact .wire isOld past
    · have away := stage_id_ne sound.distinct isOld isStage differ
      obtain rfl := Spot.eq_of_folded_eq isAt fun here => absurd here away
      exact .wire isOld wired
  | marker isNew isMarker isPort => exact folds.exists_marker_from isNew isMarker isPort isAt
  | @connection new producer input output index other isNew isInput isProducer isOutput meets isPort =>
    obtain ⟨reader, isReader, readerId, wasInput, away⟩ :=
      exists_input_of_mergeOutputs sound isStage isKept isAbsorbed changes isNew isInput
    obtain rfl := Spot.eq_of_folded_eq isAt fun here => (away here).1
    rw [readerId]
    rcases exists_output_of_mergeOutputs sound isStage isKept isAbsorbed changes isProducer isOutput with
      ⟨old, isOld, derives, wasOutput, -⟩ | ⟨derives, rfl⟩
    · refine ⟨_, folds.folded_eq isProducer isPort.mem_operatorIds, ?_⟩
      rw [derives.id]
      exact .connection isReader wasInput isOld wasOutput meets (derives.hasPort isPort)
    · -- The way goes through whichever of the two feeds the input.
      rw [derives.id]
      rcases StagePort.widened_meets.1 meets with reads | reads
      · have place : Spot.folded stage.id kept.marker absorbed.marker
            ⟨producer.id, .output, ⟨kept.marker, other⟩⟩ = ⟨producer.id, .output, ⟨kept.marker, other⟩⟩ :=
          folds.folded_eq isProducer isPort.mem_operatorIds
        rw [derives.id] at place
        exact ⟨_, place,
          .connection isReader wasInput isStage isKept reads (derives.hasPort isPort)⟩
      · exact ⟨_, Spot.folded_absorbed, .connection isReader wasInput isStage isAbsorbed reads
          (folds.hasPort_absorbed isProducer derives.id isPort)⟩

/-- Steps upstream after outputs with the same consumers were merged are images of steps that lead to
given spots. -/
theorem exists_upstream_of_sameConsumers (same : plan.SameConsumers kept absorbed) {before spot : Spot}
    (taken : result.Upstream before (spot.folded stage.id kept.marker absorbed.marker)) :
    ∃ start, start.folded stage.id kept.marker absorbed.marker = before ∧
      plan.Upstream start spot := by
  have folds := folds_of_mergeOutputs sound resultSound isStage isKept isAbsorbed changes
  have stageSound := sound.stages stage isStage
  generalize isAt : spot.folded stage.id kept.marker absorbed.marker = place at taken
  cases taken with
  | @wire new source target isNew wired =>
    obtain ⟨old, isOld, ⟨rfl, -, merges⟩ | ⟨differ, rfl⟩⟩ := exists_partner changes isNew
    · obtain ⟨stays, was⟩ := (merges.wired _ _).1 wired
      have notKept : source.operator ≠ kept.marker := fun atKept => by
        rcases was with direct | ⟨-, past⟩
        · exact stageSound.idle kept isKept _ (atKept ▸ direct.feeds)
        · exact stageSound.idle kept isKept _ (atKept ▸ past.feeds)
      obtain rfl := Spot.eq_of_folded_eq isAt fun _ => notKept
      rw [merges.id]
      rcases was with direct | ⟨rfl, past⟩
      · exact ⟨_, Spot.folded_of_ne fun _ => stays, .wire isOld direct⟩
      · exact ⟨_, Spot.folded_absorbed, .wire isOld past⟩
    · have away := stage_id_ne sound.distinct isOld isStage differ
      obtain rfl := Spot.eq_of_folded_eq isAt fun here => absurd here away
      exact ⟨_, Spot.folded_of_ne fun here => absurd here away, .wire isOld wired⟩
  | marker isNew isMarker isPort => exact folds.exists_marker_to isNew isMarker isPort isAt
  | @connection new producer input output index other isNew isInput isProducer isOutput meets isPort =>
    obtain ⟨reader, isReader, readerId, wasInput, away⟩ :=
      exists_input_of_mergeOutputs sound isStage isKept isAbsorbed changes isNew isInput
    refine ⟨_, Spot.folded_of_ne fun here => (away here).2, ?_⟩
    rw [readerId]
    rcases exists_output_of_mergeOutputs sound isStage isKept isAbsorbed changes isProducer isOutput with
      ⟨old, isOld, derives, wasOutput, notKept⟩ | ⟨derives, rfl⟩
    · obtain rfl := Spot.eq_of_folded_eq isAt notKept
      rw [derives.id]
      exact .connection isReader wasInput isOld wasOutput meets (derives.hasPort isPort)
    · -- Both of the two feed the input, so the way may go through either.
      have both := same.meets_both isReader wasInput meets
      rcases Spot.eq_or_of_folded_eq isAt with rfl | ⟨-, -, rfl⟩
      · rw [derives.id]
        change plan.Upstream _ ⟨stage.id, .output, ⟨kept.marker, other⟩⟩
        exact .connection isReader wasInput isStage isKept both.1 (derives.hasPort isPort)
      · exact .connection isReader wasInput isStage isAbsorbed both.2
          (folds.hasPort_absorbed isProducer derives.id isPort)

end MergedOutputs

/-! ### Steps -/

/-- A step of assembly delivers no more. -/
theorem Step.deliversNoMore {equivalence : Equivalence} (step : Step equivalence plan result)
    (sound : plan.Sound) (circuitless : Circuitless plan.dependencies.Depends)
    (faithful : plan.Faithful graph) : result.DeliversNoMore plan graph := by
  have resultSound := step.sound sound
  have from_derives : (∀ new ∈ result.stages, ∃ old ∈ plan.stages, new.Derives old) →
      (∀ new ∈ result.stages, ∀ operator ∈ new.graph.operators, operator.isMarker = false →
        ∀ source, graph.isMarker source.operator = false → ∀ index,
          Nat.card (result.Way source ⟨new.id, .input, ⟨operator.id, index⟩⟩) ≤
            Nat.card (plan.Way source ⟨new.id, .input, ⟨operator.id, index⟩⟩)) →
      result.DeliversNoMore plan graph := by
    intro derives fewer new isNew
    obtain ⟨old, isOld, derived⟩ := derives new isNew
    exact ⟨old, isOld, derived, fewer new isNew⟩
  cases step with
  | trim trims => exact trims.deliversNoMore sound circuitless
  | mergeOutputs isStage isKept isAbsorbed differ _ same changes =>
    have folds := folds_of_mergeOutputs sound resultSound isStage isKept isAbsorbed changes
    refine from_derives folds.derives fun new isNew operator member isOperator source noMarker => ?_
    rcases same with feeders | consumers
    · exact folds.card_le_of_forward faithful circuitless noMarker isNew member fun spot next =>
        exists_upstream_of_sameFeeders sound resultSound isStage isKept isAbsorbed changes feeders
    · exact folds.card_le_of_backward faithful circuitless noMarker isNew member isOperator
        fun before spot => exists_upstream_of_sameConsumers sound resultSound isStage isKept
          isAbsorbed changes consumers
  | mergeInputs isStage isKept isAbsorbed differ _ same changes =>
    have folds := folds_of_mergeInputs sound resultSound isStage isKept isAbsorbed changes
    refine from_derives folds.derives fun new isNew operator member _ source noMarker => ?_
    exact folds.card_le_of_forward faithful circuitless noMarker isNew member fun spot next =>
      exists_upstream_of_mergeInputs sound resultSound isStage isKept isAbsorbed changes same
  | dissolve isFound isOutput isInput _ forwards changes =>
    refine from_derives (fun new isNew => ?_) fun new _ operator _ _ source noMarker index => ?_
    · obtain ⟨old, isOld, takesOver⟩ := exists_partner changes isNew
      exact ⟨old, isOld, takesOver.derives⟩
    · exact Route.card_le_of_traces (sound.finitary_upstream circuitless) _ fun way =>
        exists_way_of_dissolved sound isFound isOutput isInput forwards changes faithful noMarker way

/-- So do all steps together. -/
theorem deliversNoMore_of_steps {equivalence : Equivalence} (sound : plan.Sound)
    (circuitless : Circuitless plan.dependencies.Depends) (faithful : plan.Faithful graph)
    (steps : ReflTransGen (Step equivalence) plan result) : result.DeliversNoMore plan graph := by
  induction steps with
  | refl => exact .refl plan
  | tail before last ih =>
    exact (last.deliversNoMore
      (sound_of_steps (fun _ _ sound step => step.sound sound) sound before)
      (circuitless_of_steps circuitless before)
      (faithful_of_steps sound circuitless faithful before)).trans ih

end Plan

end StagePlanner
